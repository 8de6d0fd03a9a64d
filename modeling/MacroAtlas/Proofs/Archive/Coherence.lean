import MacroAtlas.Proofs.Archive.Integrity
import MacroAtlas.Proofs.Archive.Removal

/-!
# No step leaves the cache behind

Whatever the cache of an archive over memory offers is what the stored record decodes to, after any
steps that go through the archive, under whatever permits. A removal that the store refuses drops
the map of a record that stays.
-/

namespace MacroAtlas

namespace Store

variable (s : Store MemoryBlobs) (permit : Permit) (file : FileName)

/-- Reading changes no blob. -/
theorem blobs_tryRead : (s.tryRead permit file).2.blobs.blobs = s.blobs.blobs := by
  have hread : BlobStore.read s.blobs area file =
      (.ok (s.blobs.blob? area file), { s.blobs with reads := s.blobs.reads + 1 }) := rfl
  unfold tryRead
  split
  · rfl
  · rw [hread]
    cases s.blobs.blob? area file with
    | none => rfl
    | some bytes =>
        simp only
        cases Record.decode bytes <;> rfl

/-- Reading a record changes no blob. -/
theorem blobs_read : (s.read permit file).2.blobs.blobs = s.blobs.blobs := by
  have htried := s.blobs_tryRead permit file
  unfold read
  rcases hr : s.tryRead permit file with ⟨(fault | _) | found, store⟩
  · rw [hr] at htried
    exact htried
  · rw [hr] at htried
    exact htried
  · rw [hr] at htried
    exact htried

end Store

namespace Archive

variable {a b : Archive MemoryBlobs} {permit : Permit} {file : FileName}

/-- Only the own writer may write. -/
theorem allowsWriting_iff : a.store.allowsWriting permit = true ↔ permit = a.permit .exclusive := by
  obtain ⟨lock, mode⟩ := permit
  simp [Store.allowsWriting, Archive.permit]

/-- A reader who finds a map, under whatever permit, finds the one that the record decodes to. -/
theorem map?_of_read {map : SpanMap} (h : (a.store.read permit file).1 = .ok (some map)) :
    a.plain.map? file = some map := by
  by_cases hlock : permit.lock = a.store.owner
  · have hown := a.read_own permit.mode file
    rw [Archive.permit, ← hlock] at hown
    rw [hown] at h
    exact Except.ok.inj h
  · rw [Store.read, Store.tryRead, if_pos hlock] at h
    cases h

/-- An archive with the same blobs that offers nothing new is faithful too. -/
theorem Faithful.of_blobs (h : a.Faithful) (hb : b.store.blobs.blobs = a.store.blobs.blobs)
    (hc : ∀ file m, b.cache.Offers file m → a.cache.Offers file m) : b.Faithful := by
  have hmap : b.plain.map? = a.plain.map? := by
    funext file
    simp only [Plain.map?, Plain.record?, plain, hb]
  intro file m ho
  rw [hmap]
  exact h file m (hc file m ho)

namespace Faithful

variable (h : a.Faithful) (held : MapId → Bool) (permit : Permit)

include h

/-- What a look-up puts into the cache was read from the store. -/
theorem get (file : FileName) : (a.get held permit file).2.Faithful := by
  obtain ⟨-, hcache⟩ := Cache.FaithfulTo.get h held file
  unfold Archive.get
  rcases hg : a.cache.get held file with ⟨_ | m, cache⟩ <;> rw [hg] at hcache
  · let missed : Archive MemoryBlobs := { a with cache := cache.countMiss }
    have hmissed : missed.Faithful := hcache
    have hblobs := missed.store.blobs_read permit file
    have hread : ∀ map, (missed.store.read permit file).1 = .ok (some map) →
        missed.plain.map? file = some map := fun map => map?_of_read
    simp only
    rcases hr : missed.store.read permit file with ⟨failure | _ | map, store⟩
    · rw [hr] at hblobs
      exact hmissed.of_blobs hblobs fun _ _ ho => ho
    · rw [hr] at hblobs
      exact hmissed.of_blobs hblobs fun _ _ ho => ho
    · rw [hr] at hblobs
      have hmap := hread map (by rw [hr])
      have hstored : ({ missed with store } : Archive MemoryBlobs).Faithful :=
        hmissed.of_blobs hblobs fun _ _ ho => ho
      have hsame : ({ missed with store } : Archive MemoryBlobs).plain.map? file =
          missed.plain.map? file := congrArg (fun blobs => Plain.map? ⟨blobs, a.sites⟩ file) hblobs
      exact Cache.FaithfulTo.enter hstored (hsame.trans hmap) fun _ _ => rfl
  · exact hcache

/-- A look-up for a call site comes to a look-up of a file or to nothing. -/
theorem mapForCall (site : CallSite) (current : Fingerprint) :
    (a.mapForCall held permit site current).2.Faithful := by
  unfold Archive.mapForCall
  split
  · exact h
  · exact h
  · exact h.get held permit _
  · exact h.get held permit _

/-- A strict reader leaves blobs and cache as they are. -/
theorem tryRead (file : FileName) :
    ({ a with store := (a.store.tryRead permit file).2 } : Archive MemoryBlobs).Faithful :=
  h.of_blobs (a.store.blobs_tryRead permit file) fun _ _ ho => ho

/-- A survey reads one record after the other. -/
theorem summarize (files : List FileName) : (a.summarize permit files).2.Faithful := by
  induction files generalizing a with
  | nil => exact h
  | cons file rest ih =>
      have hread := h.tryRead permit file
      have hrest := ih hread
      unfold Archive.summarize
      simp only
      split
      · exact hread
      · generalize Archive.summarize
          ({ a with store := (a.store.tryRead permit file).2 } : Archive MemoryBlobs) permit rest =
            summarized at hrest ⊢
        obtain ⟨failure | summaries, after⟩ := summarized
        · exact hrest
        · exact hrest

/-- It lists the files first. -/
theorem records : (a.records permit).2.Faithful := by
  unfold Archive.records
  split
  · exact h
  · exact h.summarize permit _

/-- A map enters the cache behind its record. -/
theorem put (file : FileName) (map : SpanMap) : (a.put held permit file map).2.Faithful := by
  by_cases hw : a.store.allowsWriting permit = true
  · obtain rfl := allowsWriting_iff.mp hw
    obtain ⟨m, after, hput, -, -, hafter⟩ := put_own h held file map
    rw [hput]
    exact hafter
  · simp only [Archive.put, Store.write, hw]
    exact h

/-- Call sites hold no maps. -/
theorem changeSites (site : CallSite) (change : CallSites → CallSites) :
    (a.changeSites permit site change).2.Faithful := by
  unfold Archive.changeSites
  split <;> exact h

/-- A recording that is not refused puts the map first. -/
theorem record (site : CallSite) (e : Expansion) : (a.record held permit site e).2.Faithful := by
  by_cases hw : a.store.allowsWriting permit = true
  · obtain rfl := allowsWriting_iff.mp hw
    cases hm : mapOf site e with
    | error fault =>
        simp only [Archive.record, hw, ite_true, hm]
        exact h
    | ok map =>
        obtain ⟨after, hrecord, -, hafter⟩ := record_own h held site hm
        rw [hrecord]
        exact hafter
  · simp only [Archive.record, hw]
    exact h

/-- A removal that is refused has dropped the map, but not the record. -/
theorem removeRecord (file : FileName) : (a.removeRecord permit file).2.Faithful := by
  by_cases hw : a.store.allowsWriting permit = true
  · obtain rfl := allowsWriting_iff.mp hw
    rw [removeRecord_own]
    exact h.foldl_without [file]
  · have hremove : a.store.remove permit file = (.error (.writeDenied file), a.store) := by
      simp only [Store.remove, hw]
      rfl
    simp only [Archive.removeRecord, Archive.invalidate, hremove]
    exact h.of_blobs rfl fun _ _ ho => (Cache.offers_of_invalidate ho).2

/-- A collection drops a map before its record. -/
theorem collect (live : List Fingerprint) : (a.collect permit live).2.Faithful := by
  unfold Archive.collect
  split
  · exact h
  · exact sweep_keeps (fun _ _ hb => hb) (fun _ file hb => hb.removeRecord permit file) h _

/-- So does a purge. -/
theorem purge : (a.purge permit).2.Faithful := by
  unfold Archive.purge
  split
  · exact h
  · exact sweep_keeps (fun _ file hb => hb.tryRead permit file)
      (fun _ file hb => hb.removeRecord permit file) h _

end Faithful

end Archive

namespace ArchiveSession

variable {s : ArchiveSession MemoryBlobs}

/-- The archive stays faithful in each step that goes through it. -/
theorem faithful_step (h : s.archive.Faithful) {step : ArchiveStep FileName SpanMap}
    (hc : step.coordinated = true) : (s.step step).2.archive.Faithful := by
  cases step with
  | get permit file hold =>
      simp only [ArchiveSession.step, archive_settleMap]
      exact h.get _ permit file
  | mapForCall permit site current hold =>
      simp only [ArchiveSession.step, archive_settleMap]
      exact h.mapForCall _ permit site current
  | state site current => exact h
  | records permit => exact h.records permit
  | tryReadStore permit file => exact h.tryRead permit file
  | readStore permit file =>
      exact h.of_blobs (s.archive.store.blobs_read permit file) fun _ _ ho => ho
  | storeFiles permit => exact h
  | put permit file map hold =>
      simp only [ArchiveSession.step, archive_settleMap]
      exact h.put _ permit file map
  | start permit site => exact h.changeSites permit site (·.start site)
  | giveUp permit site => exact h.changeSites permit site (·.giveUp site)
  | record permit site e => exact h.record s.held permit site e
  | collect permit live => exact h.collect permit live
  | purge permit => exact h.purge permit
  | invalidate file => exact h.of_blobs rfl fun _ _ ho => (Cache.offers_of_invalidate ho).2
  | invalidateAll => exact Cache.FaithfulTo.clear
  | relieve => exact Cache.FaithfulTo.relieve h
  | readBlob file => exact h
  | drop slot => exact h
  | reopen => exact Cache.faithfulTo_ofCapacity s.capacity _
  | writeStore permit file map => cases hc
  | removeStore permit file => cases hc
  | writeBlob area file bytes => cases hc

/-- The cache stays faithful through a whole run. -/
theorem faithful_afterSteps (h : s.archive.Faithful) {steps : List (ArchiveStep FileName SpanMap)}
    (hc : ∀ step ∈ steps, step.coordinated = true) : (s.afterSteps steps).archive.Faithful := by
  induction steps generalizing s with
  | nil => exact h
  | cons step rest ih =>
      obtain ⟨hstep, hrest⟩ := List.forall_mem_cons.mp hc
      exact ih (faithful_step h hstep) hrest

end ArchiveSession

end MacroAtlas
