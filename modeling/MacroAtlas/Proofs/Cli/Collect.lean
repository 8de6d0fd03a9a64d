import MacroAtlas.Cli.Run
import MacroAtlas.Proofs.Archive.Cleaning
import MacroAtlas.Proofs.Fingerprint

/-!
# What the command that collects keeps

A misspelled fingerprint stops a collection before anything is removed. Then it sifts the records
for those that do not decode and, if fingerprints are named, for those that carry another. Another
collection finds nothing to remove.
-/

namespace MacroAtlas.Cli

open Archive

section Reading

variable {text : String} {texts : List String} {live : List Fingerprint}

theorem parseFingerprints_cons_of_some {f : Fingerprint} (h : Fingerprint.ofText? text = some f) :
    parseFingerprints (text :: texts) = (parseFingerprints texts).map (f :: ·) := by
  unfold parseFingerprints
  simp only [List.mapM_cons, h]
  generalize (List.mapM _ texts : Except String (List Fingerprint)) = others
  cases others <;> rfl

theorem parseFingerprints_cons_of_none (h : Fingerprint.ofText? text = none) :
    parseFingerprints (text :: texts) = .error s!"invalid fingerprint '{text}'" := by
  simp only [parseFingerprints, List.mapM_cons, h, bind, Except.bind]

/-- The texts of fingerprints are read as these fingerprints. -/
theorem parseFingerprints_map_text (live : List Fingerprint) :
    parseFingerprints (live.map (·.text)) = .ok live := by
  induction live with
  | nil => rfl
  | cons f rest ih =>
      rw [List.map_cons, parseFingerprints_cons_of_some (Fingerprint.ofText?_eq_some_iff.mpr rfl),
        ih]
      rfl

/-- The first text that spells no fingerprint is reported. -/
theorem parseFingerprints_of_misspelled (h : ∃ text ∈ texts, ¬ Fingerprint.Spelled text) :
    ∃ text ∈ texts, ¬ Fingerprint.Spelled text ∧
      parseFingerprints texts = .error s!"invalid fingerprint '{text}'" := by
  induction texts with
  | nil =>
      obtain ⟨text, hmem, -⟩ := h
      cases hmem
  | cons first rest ih =>
      cases hf : Fingerprint.ofText? first with
      | none =>
          refine ⟨first, List.mem_cons_self, ?_, parseFingerprints_cons_of_none hf⟩
          rw [← Fingerprint.exists_ofText?_iff, hf]
          rintro ⟨f, hnone⟩
          cases hnone
      | some f =>
          have hlater : ∃ text ∈ rest, ¬ Fingerprint.Spelled text := by
            obtain ⟨text, hmem, hbad⟩ := h
            rcases List.mem_cons.mp hmem with rfl | hmem
            · exact absurd (Fingerprint.exists_ofText?_iff.mp ⟨f, hf⟩) hbad
            · exact ⟨text, hmem, hbad⟩
          obtain ⟨text, hmem, hbad, herror⟩ := ih hlater
          refine ⟨text, List.mem_cons_of_mem _ hmem, hbad, ?_⟩
          rw [parseFingerprints_cons_of_some hf, herror]
          rfl

end Reading

/-- What a collection promises to spare: maps whose file carries a fingerprint to be kept or none at
all. -/
def Spared (keep : List String) (file : FileName) (bytes : Bytes) : Prop :=
  (∃ map, Record.decode bytes = .ok map) ∧
    (keep ≠ [] → ∀ f, file.fingerprint? = some f → f.text ∈ keep)

/-- The test by which a collection sifts the records. -/
def condemns (live : List Fingerprint) (file : FileName) (bytes : Bytes) : Bool :=
  Plain.unreadable bytes || (!live.isEmpty && isDead live file)

/-- The collection spares a file exactly where the promise does. -/
theorem condemns_eq_false_iff {live : List Fingerprint} {file : FileName} {bytes : Bytes} :
    condemns live file bytes = false ↔ Spared (live.map (·.text)) file bytes := by
  have hdecodes : Plain.unreadable bytes = false ↔ ∃ map, Record.decode bytes = .ok map := by
    unfold Plain.unreadable
    cases Record.decode bytes <;> simp [Except.toOption]
  have halive : isDead live file = false ↔
      ∀ f, file.fingerprint? = some f → f.text ∈ live.map (·.text) := by
    unfold isDead
    cases file.fingerprint? with
    | none => simp
    | some f =>
        have hinjective : Function.Injective (Fingerprint.text) :=
          fun _ _ => Fingerprint.text_injective
        simp [List.mem_map_of_injective hinjective]
  rw [condemns, Bool.or_eq_false_iff, hdecodes, Spared, ← halive]
  cases live <;> simp

/-- The report of a collection that removed so many records. -/
def Report.collected (quiet : Bool) (removed : Nat) : Report :=
  ⟨0, "", if quiet then "" else s!"     Removed {removed} expansion record(s)\n"⟩

variable {a : ProjectArchive} {files : List FileName} {keep : List String}

/-- Cleaning an archive that can be listed sifts it. -/
theorem clean_sifted (hl : a.Lists files) (live : List Fingerprint) :
    ∃ removed b, clean a live = (.ok removed, b) ∧ Sifted (condemns live) a b removed := by
  obtain ⟨broken, b, hpurge, hb⟩ := purge_sifted hl
  unfold clean
  rw [hpurge]
  cases live with
  | nil =>
      have htest : condemns [] = fun _ bytes => Plain.unreadable bytes := by
        funext file bytes
        simp [condemns]
      rw [htest]
      exact ⟨broken, b, rfl, hb⟩
  | cons f rest =>
      obtain ⟨between, hbetween, -⟩ := hb.counted files hl
      obtain ⟨dead, c, hcollect, hc⟩ := collect_sifted hbetween (f :: rest)
      refine ⟨broken + dead, c, ?_, hb.trans hc⟩
      simp only [List.isEmpty_cons, hcollect]
      rfl

/-- The command reports what the collection under it removed. -/
theorem runCollect_eq {live : List Fingerprint} {removed : Nat} {b : ProjectArchive}
    (h : clean a live = (.ok removed, b)) (quiet : Bool) :
    runCollect a quiet (live.map (·.text)) = (.collected quiet removed, b) := by
  unfold runCollect
  rw [parseFingerprints_map_text]
  simp only [h]
  rfl

/-- A collection leaves what it promises to spare and tells how many records went. -/
theorem runCollect_spelled (hl : a.Lists files) (hk : ∀ text ∈ keep, Fingerprint.Spelled text)
    (quiet : Bool) : ∃ removed b kept, runCollect a quiet keep = (.collected quiet removed, b) ∧
      b.store.blobs = { a.store.blobs with tree := b.store.blobs.tree } ∧
      b.Lists kept ∧ removed + kept.length = files.length ∧
      (∀ file bytes, b.record? file = some bytes ↔
        a.record? file = some bytes ∧ Spared keep file bytes) ∧
      ∀ again : ProjectArchive, again.store.blobs = b.store.blobs →
        runCollect again quiet keep = (.collected quiet 0, again) := by
  obtain ⟨live, rfl⟩ := Fingerprint.exists_map_text hk
  obtain ⟨removed, b, hclean, hb⟩ := clean_sifted hl live
  obtain ⟨kept, hkept, hcount⟩ := hb.counted files hl
  refine ⟨removed, b, kept, runCollect_eq hclean quiet, hb.blobs_eq, hkept, hcount, ?_, ?_⟩
  · intro file bytes
    rw [hb.record?_eq, Option.filter_eq_some_iff, Bool.not_eq_true', condemns_eq_false_iff]
  · intro again hsame
    have hagain : again.Lists kept := by
      rw [Archive.Lists, hsame]
      exact hkept
    have hnothing : ∀ file bytes, again.record? file = some bytes →
        condemns live file bytes = false := by
      intro file bytes hr
      rw [record?, hsame] at hr
      exact hb.eq_false hr
    obtain ⟨more, c, hclean', hc⟩ := clean_sifted hagain live
    obtain ⟨rfl, rfl⟩ := hc.idle hnothing
    exact runCollect_eq hclean' quiet

/-- The command collects in the archive that the configuration leads to. -/
theorem run_collect {p : Place} {o : Options} {c : Config}
    (hc : Config.loadOrDefault p.tree (p.project o.config) = .ok c) {report : Report}
    {b : ProjectArchive}
    (hr : runCollect (.ofBlobs (.ofTree (p.storeRoot o c) p.tree 0) 0 c.capacity) o.quiet keep =
      (report, b)) :
    Request.run ⟨o, .collect keep⟩ p = (report, b.store.blobs.tree) := by
  unfold Request.run openArchive
  simp only [hc, hr]

/-- The command keeps exactly what it promises, removes nothing for a misspelled fingerprint, and
nothing more when it is repeated. -/
theorem collect_keeps_promise (p : Place) (o : Options) (keep : List String) :
    ((∃ text ∈ keep, ¬ Fingerprint.Spelled text) →
      ∃ message, Request.run ⟨o, .collect keep⟩ p = (.failure message, p.tree)) ∧
    ∀ (c : Config) (before : List FileName),
      let store (tree : FileTree) : DirectoryBlobs := .ofTree (p.storeRoot o c) tree 0
      (∀ text ∈ keep, Fingerprint.Spelled text) →
      Config.loadOrDefault p.tree (p.project o.config) = .ok c →
      (store p.tree).files Store.area = .ok before →
      ∃ removed tree kept,
        Request.run ⟨o, .collect keep⟩ p = (.collected o.quiet removed, tree) ∧
        (store p.tree).Enumerates Store.area before ∧ (store tree).Enumerates Store.area kept ∧
        removed + kept.length = before.length ∧
        (∀ file bytes, (store tree).blob? Store.area file = some bytes ↔
          (store p.tree).blob? Store.area file = some bytes ∧ Spared keep file bytes) ∧
        (∀ again : ProjectArchive, again.store.blobs = store tree →
          runCollect again o.quiet keep = (.collected o.quiet 0, again)) ∧
        ∀ c', Config.loadOrDefault tree (Place.project { p with tree } o.config) = .ok c' →
          Place.storeRoot { p with tree } o c' = p.storeRoot o c →
          Request.run ⟨o, .collect keep⟩ { p with tree } = (.collected o.quiet 0, tree) := by
  refine ⟨?_, ?_⟩
  · intro hbad
    obtain ⟨text, -, -, herror⟩ := parseFingerprints_of_misspelled hbad
    cases hc : Config.loadOrDefault p.tree (p.project o.config) with
    | error fault =>
        refine ⟨fault.message, ?_⟩
        unfold Request.run openArchive
        simp only [hc]
    | ok c =>
        have hfailed : ∀ a : ProjectArchive, runCollect a o.quiet keep =
            (.failure s!"invalid fingerprint '{text}'", a) := by
          intro a
          unfold runCollect
          simp only [herror]
        exact ⟨_, run_collect hc (hfailed _)⟩
  · intro c before store hk hc hl
    obtain ⟨removed, b, kept, hrun, hblobs, hkept, hcount, hrecord, hagain⟩ :=
      runCollect_spelled (a := .ofBlobs (store p.tree) 0 c.capacity) hl hk o.quiet
    have hstore : store b.store.blobs.tree = b.store.blobs := hblobs.symm
    refine ⟨removed, b.store.blobs.tree, kept, run_collect hc hrun,
      DirectoryBlobs.enumerates_files Store.area_ne_empty hl, ?_, hcount, ?_, ?_, ?_⟩
    · rw [hstore]
      exact hkept.enumerates
    · rw [hstore]
      exact hrecord
    · rw [hstore]
      exact hagain
    · intro c' hc' hroot
      have hsame : DirectoryBlobs.ofTree
          (Place.storeRoot { p with tree := b.store.blobs.tree } o c') b.store.blobs.tree 0 =
            b.store.blobs := by
        rw [hroot]
        exact hstore
      have hrerun := run_collect hc' (hagain (.ofBlobs _ 0 c'.capacity) hsame)
      exact hrerun

/-- The store has a record to keep, a dead one and a broken one; only the first is left. -/
theorem collect_keeps_promise_mixed :
    let live : Fingerprint := ⟨⟨List.replicate 16 0, rfl⟩⟩
    let dead : Fingerprint := ⟨⟨List.replicate 16 1, rfl⟩⟩
    let broken : FileName := ⟨"broken.rs", by decide⟩
    let area := ["home", "cache", Store.area]
    let tree := ((((((FileTree.empty.put ["home"] .directory).put ["home", "cache"] .directory).put
      area .directory).put (area ++ [(FileName.ofFingerprint live).text]) (.file [2, 0, 0])).put
        (area ++ [(FileName.ofFingerprint dead).text]) (.file [2, 0, 0])).put
          (area ++ [broken.text]) (.file [9, 9]))
    let p : Place := ⟨tree, ["home"], "/home"⟩
    let o : Options := ⟨true, none, some "cache"⟩
    let store (tree : FileTree) : DirectoryBlobs := .ofTree (p.storeRoot o {}) tree 0
    (∃ message, Request.run ⟨o, .collect [live.text, "xyz"]⟩ p = (.failure message, tree)) ∧
    (∀ text ∈ [live.text], Fingerprint.Spelled text) ∧
    Config.loadOrDefault tree (p.project o.config) = .ok {} ∧
    (∃ before, (store tree).files Store.area = .ok before) ∧
    ∃ removed after, Request.run ⟨o, .collect [live.text]⟩ p = (.collected true removed, after) ∧
      (store after).blob? Store.area (.ofFingerprint live) = some [2, 0, 0] ∧
      (∀ bytes, (store after).blob? Store.area (.ofFingerprint dead) ≠ some bytes) ∧
      ∀ bytes, (store after).blob? Store.area broken ≠ some bytes := by
  intro live dead broken area tree p o store
  have hbad : ∃ text ∈ [live.text, "xyz"], ¬ Fingerprint.Spelled text :=
    ⟨"xyz", by simp, fun h => absurd h.1 (by decide)⟩
  have hk : ∀ text ∈ [live.text], Fingerprint.Spelled text := by
    intro text hmem
    rw [List.mem_singleton.mp hmem]
    exact live.spelled_text
  have hc : Config.loadOrDefault tree (p.project o.config) = .ok {} := by decide +kernel
  obtain ⟨before, hl⟩ : ∃ before, (store tree).files Store.area = .ok before :=
    DirectoryBlobs.exists_files_iff.mpr (by decide +kernel)
  obtain ⟨removed, after, kept, hrun, -, -, -, hrecord, -, -⟩ :=
    (collect_keeps_promise p o [live.text]).2 {} before hk hc hl
  refine ⟨(collect_keeps_promise p o _).1 hbad, hk, hc, ⟨before, hl⟩, removed, after, hrun, ?_, ?_,
    ?_⟩
  · have hdecode : ∃ map, Record.decode [2, 0, 0] = .ok map := ⟨.empty, by decide +kernel⟩
    refine (hrecord _ _).mpr ⟨by decide +kernel, hdecode, fun _ f hf => ?_⟩
    rw [FileName.fingerprint?_ofFingerprint] at hf
    obtain rfl := Option.some.inj hf
    exact List.mem_singleton_self _
  · intro bytes hb
    have hspared := ((hrecord _ _).mp hb).2.2 (List.cons_ne_nil _ _) dead
      (FileName.fingerprint?_ofFingerprint dead)
    revert hspared
    decide +kernel
  · intro bytes hb
    obtain ⟨hbefore, ⟨map, hdecode⟩, -⟩ := (hrecord _ _).mp hb
    have hnine : (store tree).blob? Store.area broken = some [9, 9] := by decide +kernel
    obtain rfl := Option.some.inj (hnine.symm.trans hbefore)
    cases hdecode

end MacroAtlas.Cli
