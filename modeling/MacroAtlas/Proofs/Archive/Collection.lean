import MacroAtlas.Proofs.Archive.Discard
import MacroAtlas.Proofs.Archive.Removal

/-!
# Collecting the records that are not live

A collection removes the files that carry a fingerprint that is not live, from the blobs, from the
cache and from what the call sites know, and nothing else. Collecting twice ends as collecting once
with the fingerprints that were live both times.
-/

namespace MacroAtlas

/-- The name carries a fingerprint that is not among the live ones. -/
def FileName.Unreferenced (live : List Fingerprint) (file : FileName) : Prop :=
  ∃ f, file.fingerprint? = some f ∧ f ∉ live

/-- The test of a collection condemns exactly what is not referenced. -/
theorem Archive.isDead_iff {live : List Fingerprint} {file : FileName} :
    isDead live file = true ↔ file.Unreferenced live := by
  unfold isDead FileName.Unreferenced
  cases file.fingerprint? with
  | none => simp
  | some f => simp

instance (live : List Fingerprint) (file : FileName) : Decidable (file.Unreferenced live) :=
  decidable_of_iff _ Archive.isDead_iff

namespace Archive

/-- What is live both times is condemned by neither collection. -/
theorem isDead_filter (live live' : List Fingerprint) (file : FileName) :
    isDead (live.filter (· ∈ live')) file = (isDead live file || isDead live' file) := by
  unfold isDead
  cases file.fingerprint? with
  | none => rfl
  | some f => by_cases hf : f ∈ live <;> by_cases hf' : f ∈ live' <;> simp [hf, hf']

/-- A collection condemns the stored files that are not referenced. -/
theorem condemned_isDead (p : Plain) (live : List Fingerprint) :
    p.condemned (fun file _ => isDead live file) = p.files.filter (·.Unreferenced live) := by
  refine List.filter_congr fun file hf => ?_
  obtain ⟨bytes, hr⟩ := Option.isSome_iff_exists.mp (Plain.mem_files.mp hf)
  rw [hr, Option.any_some, Bool.eq_iff_iff, decide_eq_true_iff, isDead_iff]

variable (a : Archive MemoryBlobs)

/-- Only the blobs of the store change. -/
theorem store_foldl_without (files : List FileName) :
    (files.foldl without a).store = (a.withBlobs (files.foldl without a).plain.blobs).store := by
  induction files generalizing a with
  | nil => rfl
  | cons file rest ih => exact ih (a.without file)

/-- A file that was taken out is in no way served, even while callers keep its map. -/
theorem get_foldl_without {files : List FileName} {file : FileName} (hf : file ∈ files)
    (held : MapId → Bool) (mode : AccessMode) :
    ((files.foldl without a).cache.get held file).1 = none ∧
      ((files.foldl without a).get held (a.permit mode) file).1 = .ok none := by
  have hcache : ((files.foldl without a).cache.get held file).1 = none := by
    apply Cache.get_eq_none_of_not_offers
    intro m ho
    rw [cache_foldl_without] at ho
    exact (Cache.offers_of_foldl_invalidate ho).1 hf
  refine ⟨hcache, ?_⟩
  have hmap : (files.foldl without a).plain.map? file = none := by
    rw [plain_foldl_without, Plain.map?, Plain.record?_foldl_remove, if_pos hf]
    rfl
  rcases hg : (files.foldl without a).cache.get held file with ⟨found, cache⟩
  rw [hg] at hcache
  obtain rfl : found = none := hcache
  rw [← permit_foldl_without a files, get_of_miss hg, hmap]

/-- Collecting twice ends as collecting once with what is live both times. -/
theorem collect_collect (live live' : List Fingerprint) :
    ∃ count count' first second once,
      a.collect (a.permit .exclusive) live = (.ok count, first) ∧
      first.collect (a.permit .exclusive) live' = (.ok count', second) ∧
      a.collect (a.permit .exclusive) (live.filter (· ∈ live')) = (.ok (count + count'), once) ∧
      second.store = once.store ∧ second.sites = once.sites := by
  let test : FileName → Bytes → Bool := fun file _ => isDead live file
  let test' : FileName → Bytes → Bool := fun file _ => isDead live' file
  let first := (a.plain.condemned test).foldl without a
  have hfirst : first.plain = (a.plain.discard test).2 := a.plain_foldl_without_condemned test
  have hsecond := first.collect_own live'
  have hpermit : first.permit = a.permit := a.permit_foldl_without _
  have honce := a.collect_own (live.filter (· ∈ live'))
  have hboth : (fun (file : FileName) (_ : Bytes) => isDead (live.filter (· ∈ live')) file) =
      fun file bytes => test file bytes || test' file bytes := by
    funext file _
    exact isDead_filter live live' file
  rw [hboth, ← a.plain.length_condemned_add test test', ← hfirst] at honce
  rw [hpermit] at hsecond
  -- Both ways lead to the same plain archive, and all else of a store stays.
  have hplain := calc ((first.plain.condemned test').foldl without first).plain
      = (first.plain.discard test').2 := first.plain_foldl_without_condemned test'
    _ = ((a.plain.discard test).2.discard test').2 := by rw [hfirst]
    _ = (a.plain.discard fun file bytes => test file bytes || test' file bytes).2 :=
        a.plain.discard_discard test test'
    _ = ((a.plain.condemned fun file bytes => test file bytes || test' file bytes).foldl without
          a).plain := (a.plain_foldl_without_condemned _).symm
  refine ⟨_, _, _, _, _, a.collect_own live, hsecond, honce, ?_, congrArg Plain.sites hplain⟩
  rw [store_foldl_without, store_foldl_without a, hplain]
  have hstore : first.store = (a.withBlobs first.plain.blobs).store := a.store_foldl_without _
  simp only [withBlobs, hstore]

/-- A collection removes just the stored files that are not referenced, everywhere, and two
collections come to one. -/
theorem collect_removes_unreferenced (live : List Fingerprint) :
    let own := a.permit .exclusive
    let lost := (a.store.blobs.filesOf Store.area).filter (·.Unreferenced live)
    (∃ after, a.collect own live = (.ok lost.length, after) ∧
      (∀ area file, after.store.blobs.blob? area file =
        if area = Store.area ∧ file ∈ lost then none else a.store.blobs.blob? area file) ∧
      (∀ file ∈ lost, ∀ held mode, (after.cache.get held file).1 = none ∧
        (after.get held (a.permit mode) file).1 = .ok none) ∧
      ∀ site, after.sites.entry? site =
        (a.sites.entry? site).bind (·.losing? (· ∈ lost))) ∧
    ∀ live', ∃ count count' first second once,
      a.collect own live = (.ok count, first) ∧
      first.collect own live' = (.ok count', second) ∧
      a.collect own (live.filter (· ∈ live')) = (.ok (count + count'), once) ∧
      second.store = once.store ∧ second.sites = once.sites := by
  intro own lost
  have hlost : a.plain.condemned (fun file _ => isDead live file) = lost :=
    condemned_isDead a.plain live
  have hcollect := a.collect_own live
  rw [hlost] at hcollect
  exact ⟨⟨lost.foldl without a, hcollect, a.blob?_foldl_without lost,
    fun file hf held mode => a.get_foldl_without hf held mode, a.entry?_foldl_without lost⟩,
    a.collect_collect live⟩

/-- Two call sites share a record that nothing keeps live, and one of them is being expanded
anew. -/
theorem collect_removes_unreferenced_shared :
    let e : Expansion := ⟨.ofContent [], .ofContent [], "", []⟩
    let file := FileName.ofFingerprint e.fingerprint
    let ask := fun request => OwnStep.ask request .exclusive (some "kept")
    let a := ((ArchiveSession.ofBlobs MemoryBlobs.empty 2).after
      [ask (.record "left" e), ask (.record "right" e), ask (.start "right"), ask (.get file),
        ask (.put ⟨"notes_x", by decide⟩ .empty)]).archive
    ∃ after, a.collect (a.permit .exclusive) [] = (.ok 1, after) ∧
      (after.get (fun _ => true) (a.permit .shared) file).1 = .ok none ∧
      after.sites.entry? "left" = none ∧
      after.sites.entry? "right" = some (.expanding none) := by
  intro e file ask a
  obtain ⟨hlost, hleft, hright⟩ :
      (a.store.blobs.filesOf Store.area).filter (·.Unreferenced []) = [file] ∧
        a.sites.entry? "left" = some (.expanded file) ∧
        a.sites.entry? "right" = some (.expanding (some file)) := by
    decide +kernel
  obtain ⟨⟨after, hcollect, -, hserved, hentry⟩, -⟩ := collect_removes_unreferenced a []
  rw [hlost] at hcollect hserved hentry
  refine ⟨after, hcollect, (hserved file List.mem_cons_self (fun _ => true) .shared).2, ?_, ?_⟩
  · rw [hentry, hleft]
    simp [SiteEntry.losing?]
  · rw [hentry, hright]
    simp [SiteEntry.losing?, Option.filter]

end Archive

end MacroAtlas
