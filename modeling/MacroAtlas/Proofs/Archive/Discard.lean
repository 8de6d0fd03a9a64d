import MacroAtlas.Proofs.Archive.Plain
import Mathlib.Data.List.Basic

/-!
# Discarding records

A plain archive that discards some records is the same everywhere else; a call site only loses a
file whose record goes. Discarding by one test and then by another is discarding once by both.
-/

namespace MacroAtlas

namespace Plain

variable (p : Plain) (test test' : FileName → Bytes → Bool) (area : String) (file : FileName)

/-- Plain archives are the same when they have the same blobs and the same entries of call sites. -/
theorem eq_of_blob?_of_entry? {p q : Plain}
    (hb : ∀ area file, p.blob? area file = q.blob? area file)
    (hs : ∀ site, p.sites.entry? site = q.sites.entry? site) : p = q := by
  have hblobs : p.blobs = q.blobs := by
    apply Std.ExtTreeMap.ext_getElem?
    rintro ⟨area, file⟩
    exact hb area file
  have hentries : p.sites.entries = q.sites.entries := by
    apply Std.ExtTreeMap.ext_getElem?
    intro site
    exact hs site
  exact congrArg₂ Plain.mk hblobs (congrArg CallSites.mk hentries)

/-- The record of a file is there and the test condemns it. -/
def condemns : Bool := (p.record? file).any (test file)

/-- Only records that are condemned go. -/
theorem blob?_discard : (p.discard test).2.blob? area file =
    if area = Store.area ∧ p.condemns test file then none else p.blob? area file := by
  rw [discard, blob?_foldl_remove]
  exact if_congr (and_congr_right fun _ => mem_condemned) rfl rfl

/-- A call site loses its file if the record of that is condemned. -/
theorem entry?_discard (site : CallSite) : (p.discard test).2.sites.entry? site =
    (p.sites.entry? site).bind (·.losing? (p.condemns test)) := by
  rw [discard, entry?_foldl_remove]
  simp only [mem_condemned, Bool.decide_eq_true]
  rfl

/-- After a discard the other records are there, and only those. -/
theorem condemns_discard : (p.discard test).2.condemns test' file =
    (!p.condemns test file && p.condemns test' file) := by
  have hrecord : (p.discard test).2.record? file =
      if p.condemns test file then none else p.record? file := by
    rw [discard, record?_foldl_remove]
    exact if_congr mem_condemned rfl rfl
  rw [condemns, hrecord]
  cases hc : p.condemns test file with
  | true => simp
  | false => simp [condemns]

/-- What was discarded is not there to be condemned again. -/
theorem condemned_discard_self : (p.discard test).2.condemned test = [] := by
  rw [List.eq_nil_iff_forall_not_mem]
  intro file hf
  have hcondemns : (p.discard test).2.condemns test file = true := mem_condemned.mp hf
  rw [condemns_discard, Bool.not_and_self] at hcondemns
  cases hcondemns

/-- Two tests condemn what one of them does. -/
theorem condemns_or : (p.condemns (fun file bytes => test file bytes || test' file bytes) file) =
    (p.condemns test file || p.condemns test' file) := by
  unfold condemns
  cases p.record? file <;> rfl

/-- Discarding twice ends as discarding once by both tests. -/
theorem discard_discard : ((p.discard test).2.discard test').2 =
    (p.discard fun file bytes => test file bytes || test' file bytes).2 := by
  apply eq_of_blob?_of_entry?
  · intro area file
    simp only [blob?_discard, condemns_discard, condemns_or]
    cases p.condemns test file <;> by_cases ha : area = Store.area <;> simp [ha]
  · intro site
    rw [entry?_discard, entry?_discard, entry?_discard, Option.bind_assoc]
    congr 1
    funext entry
    rw [entry.bind_losing?_losing?]
    congr 1
    funext file
    rw [condemns_discard, condemns_or]
    cases p.condemns test file <;> rfl

theorem nodup_condemned : (p.condemned test).Nodup := p.nodup_files.filter _

/-- What a second test condemns are the files that the first one spared. -/
theorem condemned_discard_perm : ((p.discard test).2.condemned test').Perm
    (p.files.filter fun file => !p.condemns test file && p.condemns test' file) := by
  rw [List.perm_ext_iff_of_nodup (nodup_condemned _ _) (p.nodup_files.filter _)]
  intro file
  have hafter : file ∈ (p.discard test).2.condemned test' ↔
      (!p.condemns test file && p.condemns test' file) = true := by
    rw [← p.condemns_discard test test' file]
    exact mem_condemned
  rw [hafter, List.mem_filter, mem_files]
  refine ⟨fun h => ⟨?_, h⟩, fun h => h.2⟩
  obtain ⟨bytes, hr, -⟩ := (Option.any_eq_true _ _).mp (Bool.and_eq_true_iff.mp h).2
  rw [hr]
  rfl

/-- What is discarded second was not discarded first, so the counts add up. -/
theorem length_condemned_add : (p.condemned test).length +
    ((p.discard test).2.condemned test').length =
      (p.condemned fun file bytes => test file bytes || test' file bytes).length := by
  have hboth : p.condemned (fun file bytes => test file bytes || test' file bytes) =
      p.files.filter fun file => p.condemns test file || p.condemns test' file :=
    List.filter_congr fun file _ => p.condemns_or test test' file
  have hsplit := List.length_eq_length_filter_add (p.condemns test)
    (l := p.files.filter fun file => p.condemns test file || p.condemns test' file)
  rw [List.filter_filter, List.filter_filter] at hsplit
  have hfirst : p.condemned test = p.files.filter fun file =>
      p.condemns test file && (p.condemns test file || p.condemns test' file) :=
    List.filter_congr fun file _ => by
      change p.condemns test file = _
      cases p.condemns test file <;> rfl
  have hsecond : (p.files.filter fun file => !p.condemns test file && p.condemns test' file) =
      p.files.filter fun file =>
        !p.condemns test file && (p.condemns test file || p.condemns test' file) :=
    List.filter_congr fun file _ => by
      cases p.condemns test file <;> rfl
  rw [(p.condemned_discard_perm test test').length_eq, hboth, hsplit, hfirst, hsecond]

end Plain

end MacroAtlas
