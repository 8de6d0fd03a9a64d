import MacroAtlas.Archive.Session
import MacroAtlas.Blob.Memory

/-!
# Writers with a permit of another lock

A permit of another lock changes nothing. Most writers are refused before anything is done, and
collecting and purging are stopped when they list the files: the removal of a single record would
drop its map before the store refuses.
-/

namespace MacroAtlas

namespace Store

variable {σ : Type} [BlobStore σ] {s : Store σ} {permit : Permit}

omit [BlobStore σ] in
/-- No foreign permit allows writing. -/
theorem allowsWriting_of_foreign (h : permit.lock ≠ s.owner) : s.allowsWriting permit = false := by
  simp [allowsWriting, h]

/-- A record is not written. -/
theorem write_of_foreign (h : permit.lock ≠ s.owner) (file : FileName) (map : SpanMap) :
    s.write permit file map = (.error (.writeDenied file), s) := by
  simp only [write, allowsWriting_of_foreign h, Bool.false_eq_true, ite_false]

/-- A record is not removed. -/
theorem remove_of_foreign (h : permit.lock ≠ s.owner) (file : FileName) :
    s.remove permit file = (.error (.writeDenied file), s) := by
  simp only [remove, allowsWriting_of_foreign h, Bool.false_eq_true, ite_false]

/-- A foreign reader is stopped. -/
theorem files_of_foreign (h : permit.lock ≠ s.owner) :
    s.files permit = .error .foreignPermit := by
  rw [files, if_pos h]

end Store

namespace Archive

variable {σ : Type} [BlobStore σ] {a : Archive σ} {permit : Permit}

/-- Nothing is cached that could not be stored. -/
theorem put_of_foreign (h : permit.lock ≠ a.store.owner) (held : MapId → Bool) (file : FileName)
    (map : SpanMap) : a.put held permit file map = (.error (.writeDenied file), a) := by
  simp only [put, Store.write_of_foreign h]

omit [BlobStore σ] in
/-- No call site changes. -/
theorem changeSites_of_foreign (h : permit.lock ≠ a.store.owner) (site : CallSite)
    (change : CallSites → CallSites) :
    a.changeSites permit site change = (.error (.stateChangeDenied site), a) := by
  simp only [changeSites, Store.allowsWriting_of_foreign h, Bool.false_eq_true, ite_false]

/-- The permit is looked at before the expansion, so its links may be anything. -/
theorem record_of_foreign (h : permit.lock ≠ a.store.owner) (held : MapId → Bool)
    (site : CallSite) (e : Expansion) :
    a.record held permit site e = (.error (.stateChangeDenied site), a) := by
  simp only [record, Store.allowsWriting_of_foreign h, Bool.false_eq_true, ite_false]

/-- A collection is stopped when it lists the files. -/
theorem collect_of_foreign (h : permit.lock ≠ a.store.owner) (live : List Fingerprint) :
    a.collect permit live = (.error .foreignPermit, a) := by
  simp only [collect, Store.files_of_foreign h]

/-- So is a purge. -/
theorem purge_of_foreign (h : permit.lock ≠ a.store.owner) :
    a.purge permit = (.error .foreignPermit, a) := by
  simp only [purge, Store.files_of_foreign h]

/-- By itself the removal of a record is refused too late: the record stays, but its map and its
file are forgotten. -/
theorem removeRecord_of_foreign (h : permit.lock ≠ a.store.owner) (file : FileName) :
    a.removeRecord permit file =
      (.error (.writeDenied file), { a.invalidate file with sites := a.sites.forget file }) := by
  have hremove : ({ a.invalidate file with sites := a.sites.forget file } :
      Archive σ).store.remove permit file = (.error (.writeDenied file), a.store) :=
    Store.remove_of_foreign h file
  simp only [removeRecord, hremove]
  rfl

end Archive

/-- The permit that a writer shows with a step, and what the step comes to if it is one of another
lock. -/
def ArchiveStep.refusal? {μ : Type} : ArchiveStep FileName μ → Option (Permit × Failure)
  | .put permit file _ _ => some (permit, .fault (.writeDenied file))
  | .start permit site => some (permit, .fault (.stateChangeDenied site))
  | .giveUp permit site => some (permit, .fault (.stateChangeDenied site))
  | .record permit site _ => some (permit, .fault (.stateChangeDenied site))
  | .collect permit _ => some (permit, .foreignPermit)
  | .purge permit => some (permit, .foreignPermit)
  | .writeStore permit file _ => some (permit, .fault (.writeDenied file))
  | .removeStore permit file => some (permit, .fault (.writeDenied file))
  | _ => none

namespace ArchiveSession

variable {σ : Type} [BlobStore σ]

/-- Whatever a writer asks under a permit of another lock, the step fails and nothing changes. -/
theorem foreign_writer_changes_nothing (s : ArchiveSession σ)
    {step : ArchiveStep FileName SpanMap} {permit : Permit} {failure : Failure}
    (hw : step.refusal? = some (permit, failure)) (hf : permit.lock ≠ s.archive.store.owner) :
    s.step step = (.error failure, s) := by
  cases step with
  | put permit file map hold =>
      cases hw
      simp only [ArchiveSession.step, Archive.put_of_foreign hf]
      rfl
  | start permit site =>
      cases hw
      simp only [ArchiveSession.step, Archive.start, Archive.changeSites_of_foreign hf]
      rfl
  | giveUp permit site =>
      cases hw
      simp only [ArchiveSession.step, Archive.giveUp, Archive.changeSites_of_foreign hf]
      rfl
  | record permit site e =>
      cases hw
      simp only [ArchiveSession.step, Archive.record_of_foreign hf]
      rfl
  | collect permit live =>
      cases hw
      simp only [ArchiveSession.step, Archive.collect_of_foreign hf]
      rfl
  | purge permit =>
      cases hw
      simp only [ArchiveSession.step, Archive.purge_of_foreign hf]
      rfl
  | writeStore permit file map =>
      cases hw
      simp only [ArchiveSession.step, Store.write_of_foreign hf]
      rfl
  | removeStore permit file =>
      cases hw
      simp only [ArchiveSession.step, Store.remove_of_foreign hf]
      rfl
  | _ => cases hw

/-- A call site is expanded, and a writer of another archive would collect its record. -/
theorem foreign_writer_changes_nothing_collecting :
    let e : Expansion := ⟨.ofContent [], .ofContent [], "", []⟩
    let s := ((ofBlobs MemoryBlobs.empty 1).step (.record ⟨ownLock, .exclusive⟩ "site" e)).2
    let foreign : Permit := ⟨1, .exclusive⟩
    s.archive.sites.last? "site" = some (.ofFingerprint e.fingerprint) ∧
      foreign.lock ≠ s.archive.store.owner ∧
      s.step (.collect foreign []) = (.error .foreignPermit, s) := by
  intro e s foreign
  have hlast : s.archive.sites.last? "site" = some (.ofFingerprint e.fingerprint) := by
    decide +kernel
  have hforeign : foreign.lock ≠ s.archive.store.owner := by
    decide +kernel
  exact ⟨hlast, hforeign, foreign_writer_changes_nothing s rfl hforeign⟩

end ArchiveSession

end MacroAtlas
