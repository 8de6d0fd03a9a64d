import MacroAtlas.Proofs.Archive.Coherence
import MacroAtlas.Proofs.Archive.Recording
import MacroAtlas.Proofs.Archive.Transparency
import Mathlib.Data.List.Nodup

/-!
# Recordings in any order

Two recordings for different call sites write different records or the same one, and each finishes
its own site, so on a plain archive neighbours can be exchanged. In between the caches differ, but a
faithful cache shows nothing of this.
-/

namespace MacroAtlas

/-- Expansions with the same fingerprint have the same links and the same text. -/
def Expansion.Agrees (e e' : Expansion) : Prop :=
  e.fingerprint = e'.fingerprint → e.links = e'.links ∧ e.text = e'.text

namespace Archive

/-- Whether an expansion has a map, and which, does not depend on the call site. -/
theorem mapOf_eq_ok_of_eq {site other : CallSite} {e e' : Expansion} {map : SpanMap}
    (hlinks : e.links = e'.links) (htext : e.text = e'.text) (hm : mapOf site e = .ok map) :
    mapOf other e' = .ok map := by
  obtain ⟨hinside, hof⟩ := mapOf_eq_ok_iff.mp hm
  rw [hlinks, htext] at hinside
  rw [hlinks] at hof
  exact mapOf_eq_ok_iff.mpr ⟨hinside, hof⟩

end Archive

namespace CallSites

/-- Two sites can be finished in either order. -/
theorem finish_comm (t : CallSites) {site other : CallSite} (hs : site ≠ other)
    (file file' : FileName) :
    (t.finish site file).finish other file' = (t.finish other file').finish site file := by
  refine congrArg CallSites.mk (Std.ExtTreeMap.ext_getElem? fun any => ?_)
  simp only [finish, Std.ExtTreeMap.getElem?_insert, Std.LawfulEqCmp.compare_eq_iff_eq]
  by_cases hsite : site = any <;> by_cases hother : other = any
  · exact absurd (hsite.trans hother.symm) hs
  all_goals simp [hsite, hother]

end CallSites

namespace Plain

/-- Two maps can be stored in either order, unless they are different maps of one file. -/
theorem write_comm (p : Plain) {file file' : FileName} {map map' : SpanMap}
    (h : file = file' → map = map') :
    (p.write file map).write file' map' = (p.write file' map').write file map := by
  refine congrArg (Plain.mk · p.sites) (Std.ExtTreeMap.ext_getElem? fun key => ?_)
  simp only [write, Std.ExtTreeMap.getElem?_insert, Std.LawfulEqCmp.compare_eq_iff_eq]
  by_cases hkey : BlobKey.mk Store.area file = key <;>
    by_cases hkey' : BlobKey.mk Store.area file' = key
  · obtain rfl := h (BlobKey.mk.inj (hkey.trans hkey'.symm)).2
    simp [hkey, hkey']
  all_goals simp [hkey, hkey']

/-- What a caller who records an expansion is told. -/
def recordAnswer (site : CallSite) (e : Expansion) : Except Failure ArchiveAnswer :=
  match Archive.mapOf site e with
  | .error fault => .error (.fault fault)
  | .ok _ => .ok (.file (.ofFingerprint e.fingerprint))

/-- The plain archive after an expansion is recorded. -/
def recording (p : Plain) (pair : CallSite × Expansion) : Plain :=
  (p.serve (.record pair.1 pair.2)).2

/-- An expansion without a map changes nothing. -/
theorem recording_of_error (p : Plain) {site : CallSite} {e : Expansion} {fault : StoreFault}
    (hm : Archive.mapOf site e = .error fault) : p.recording (site, e) = p := by
  simp only [recording, serve, hm]

/-- An expansion with a map writes its record and finishes its site. -/
theorem recording_of_ok (p : Plain) {site : CallSite} {e : Expansion} {map : SpanMap}
    (hm : Archive.mapOf site e = .ok map) :
    p.recording (site, e) =
      ⟨(p.write (.ofFingerprint e.fingerprint) map).blobs,
        p.sites.finish site (.ofFingerprint e.fingerprint)⟩ := by
  simp only [recording, serve, hm]

/-- Expansions of two call sites can be recorded in either order. -/
theorem recording_comm (p : Plain) {x y : CallSite × Expansion} (hs : x.1 ≠ y.1)
    (ha : x.2.Agrees y.2) : (p.recording x).recording y = (p.recording y).recording x := by
  obtain ⟨site, e⟩ := x
  obtain ⟨other, e'⟩ := y
  cases hm : Archive.mapOf site e with
  | error fault => rw [recording_of_error _ hm, recording_of_error _ hm]
  | ok map =>
      cases hm' : Archive.mapOf other e' with
      | error fault => rw [recording_of_error _ hm', recording_of_error _ hm']
      | ok map' =>
          have hmap : FileName.ofFingerprint e.fingerprint = .ofFingerprint e'.fingerprint →
              map = map' := by
            intro hfile
            obtain ⟨hlinks, htext⟩ := ha (FileName.ofFingerprint_injective hfile)
            exact Except.ok.inj ((Archive.mapOf_eq_ok_of_eq hlinks htext hm).symm.trans hm')
          rw [recording_of_ok _ hm, recording_of_ok _ hm', recording_of_ok _ hm',
            recording_of_ok _ hm]
          have hblobs := congrArg Plain.blobs (p.write_comm hmap)
          have hsites := p.sites.finish_comm hs (.ofFingerprint e.fingerprint)
            (.ofFingerprint e'.fingerprint)
          exact congrArg₂ Plain.mk hblobs hsites

/-- Expansions of different call sites can be recorded in any order. -/
theorem foldl_recording_perm (p : Plain) {pairs pairs' : List (CallSite × Expansion)}
    (hp : pairs.Perm pairs') (hsites : (pairs.map (·.1)).Nodup)
    (hagree : ∀ x ∈ pairs, ∀ y ∈ pairs, x.2.Agrees y.2) :
    pairs.foldl recording p = pairs'.foldl recording p := by
  refine hp.foldl_eq' (fun x hx y hy p => ?_) p
  by_cases hs : x.1 = y.1
  · rw [List.inj_on_of_nodup_map hsites hx hy hs]
  · exact p.recording_comm hs (hagree x hx y hy)

end Plain

namespace ArchiveSession

/-- The steps that record the expansions of call sites one after the other. -/
def recordings (pairs : List (CallSite × Expansion)) : List OwnStep :=
  pairs.map fun pair => .ask (.record pair.1 pair.2) .exclusive none

/-- Recording an expansion comes out as it does for a plain archive, whatever is cached. -/
theorem take_record (s : ArchiveSession MemoryBlobs) (site : CallSite) (e : Expansion) :
    (s.take (.ask (.record site e) .exclusive none)).1 = Plain.recordAnswer site e ∧
      (s.take (.ask (.record site e) .exclusive none)).2.archive.plain =
        s.archive.plain.recording (site, e) := by
  simp only [take, Request.toStep, step, Archive.record_eq, Archive.allowsWriting_own, ite_true,
    Plain.recordAnswer]
  cases hm : Archive.mapOf site e with
  | error fault =>
      rw [Plain.recording_of_error _ hm]
      exact ⟨rfl, rfl⟩
  | ok map =>
      rw [Plain.recording_of_ok _ hm]
      simp only [Archive.write_own]
      exact ⟨rfl, rfl⟩

/-- So do any number of recordings. -/
theorem after_recordings (s : ArchiveSession MemoryBlobs) (pairs : List (CallSite × Expansion)) :
    s.answers (recordings pairs) = pairs.map (fun pair => Plain.recordAnswer pair.1 pair.2) ∧
      (s.after (recordings pairs)).archive.plain =
        pairs.foldl Plain.recording s.archive.plain := by
  induction pairs generalizing s with
  | nil => exact ⟨rfl, rfl⟩
  | cons pair rest ih =>
      obtain ⟨hanswer, hplain⟩ := s.take_record pair.1 pair.2
      obtain ⟨hanswers, hafter⟩ := ih (s.take (.ask (.record pair.1 pair.2) .exclusive none)).2
      rw [hplain] at hafter
      exact ⟨congrArg₂ List.cons hanswer hanswers, hafter⟩

/-- What a look-up finds is told from the stored record, so two sessions with faithful archives find
the same in the same records. -/
theorem get_eq_of_plain_eq {s s' : ArchiveSession MemoryBlobs} (h : s.archive.Faithful)
    (h' : s'.archive.Faithful) (hp : s.archive.plain = s'.archive.plain) (mode : AccessMode)
    (file : FileName) :
    (s.archive.get s.held (s.archive.permit mode) file).1.map (·.map (·.map)) =
      (s'.archive.get s'.held (s'.archive.permit mode) file).1.map (·.map (·.map)) := by
  obtain ⟨found, after, hget, hfound, -, -⟩ := Archive.get_own h s.held mode file
  obtain ⟨found', after', hget', hfound', -, -⟩ := Archive.get_own h' s'.held mode file
  rw [hget, hget']
  rw [hp, ← hfound'] at hfound
  exact congrArg Except.ok hfound

/-- Expansions of different call sites, which agree where their fingerprints do, can be recorded in
any order. -/
theorem recordings_commute (blobs : MemoryBlobs) (capacity : Nat)
    (steps : List (ArchiveStep FileName SpanMap)) {pairs pairs' : List (CallSite × Expansion)}
    (hp : pairs.Perm pairs') (hsites : (pairs.map (·.1)).Nodup)
    (hagree : ∀ x ∈ pairs, ∀ y ∈ pairs, x.2.Agrees y.2) :
    let s := (ofBlobs blobs capacity).afterSteps steps
    let one := s.after (recordings pairs)
    let other := s.after (recordings pairs')
    (∃ answer, s.answers (recordings pairs) = pairs.map answer ∧
      s.answers (recordings pairs') = pairs'.map answer) ∧
    one.archive.store.blobs.blobs = other.archive.store.blobs.blobs ∧
    (∀ site current, one.archive.state site current = other.archive.state site current) ∧
    ((∀ step ∈ steps, step.coordinated = true) → ∀ mode file,
      (one.archive.get one.held (one.archive.permit mode) file).1.map (·.map (·.map)) =
        (other.archive.get other.held (other.archive.permit mode) file).1.map (·.map (·.map))) := by
  intro s one other
  obtain ⟨hanswers, hafter⟩ := s.after_recordings pairs
  obtain ⟨hanswers', hafter'⟩ := s.after_recordings pairs'
  have hplain : one.archive.plain = other.archive.plain := by
    rw [hafter, hafter', s.archive.plain.foldl_recording_perm hp hsites hagree]
  refine ⟨⟨_, hanswers, hanswers'⟩, congrArg Plain.blobs hplain, fun site current => ?_,
    fun hc mode file => ?_⟩
  · exact congrArg (fun p => p.sites.state site current) hplain
  · have hs : s.archive.Faithful := faithful_afterSteps (faithful_ofBlobs blobs capacity) hc
    obtain ⟨-, -, hone⟩ := contents_eq_plain hs (recordings pairs)
    obtain ⟨-, -, hother⟩ := contents_eq_plain hs (recordings pairs')
    exact get_eq_of_plain_eq hone hother hplain mode file

/-- Of two new maps either takes the other's place in a cache for one. -/
theorem recordings_commute_evicting :
    let old : Expansion := ⟨.ofContent [], .ofContent [], "", []⟩
    let new : Expansion := ⟨.ofContent [0], .ofContent [], "", []⟩
    let steps : List (ArchiveStep FileName SpanMap) := [.record ⟨ownLock, .exclusive⟩ "right" old]
    let s := (ofBlobs MemoryBlobs.empty 1).afterSteps steps
    let one := s.after (recordings [("left", old), ("right", new)])
    let other := s.after (recordings [("right", new), ("left", old)])
    let file := FileName.ofFingerprint old.fingerprint
    (one.archive.cache.get one.held file).1.isNone ∧
      (other.archive.cache.get other.held file).1.isSome ∧
      one.archive.store.blobs.blobs = other.archive.store.blobs.blobs ∧
      (∀ site current, one.archive.state site current = other.archive.state site current) ∧
      (one.archive.get one.held (one.archive.permit .shared) file).1.map (·.map (·.map)) =
        (other.archive.get other.held (other.archive.permit .shared) file).1.map
          (·.map (·.map)) := by
  intro old new steps s one other file
  have hdifferent : old.fingerprint ≠ new.fingerprint := by decide +kernel
  have hagree : ∀ x ∈ [("left", old), ("right", new)], ∀ y ∈ [("left", old), ("right", new)],
      x.2.Agrees y.2 := by
    simp [Expansion.Agrees, hdifferent, hdifferent.symm]
  obtain ⟨-, hblobs, hstate, hget⟩ := recordings_commute MemoryBlobs.empty 1 steps
    (List.Perm.swap ("right", new) ("left", old) []) (by decide) hagree
  exact ⟨by decide +kernel, by decide +kernel, hblobs, hstate,
    hget (by decide) .shared file⟩

end ArchiveSession

end MacroAtlas
