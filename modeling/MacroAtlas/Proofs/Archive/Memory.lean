import MacroAtlas.Proofs.Archive.Plain
import MacroAtlas.Proofs.Cache.Offers

/-!
# An archive over memory

An archive over blobs in memory is seen as a plain one once its cache and the count of its reads are
left out. Under its own permits each operation does to the plain view what the plain archive says,
and keeps the cache faithful.
-/

namespace MacroAtlas

namespace Archive

/-- The archive without its cache. -/
def plain (a : Archive MemoryBlobs) : Plain := ⟨a.store.blobs.blobs, a.sites⟩

/-- The archive with more reads of its store on the count. -/
def countReads (a : Archive MemoryBlobs) (more : Nat) : Archive MemoryBlobs :=
  { a with store := { a.store with
      blobs := { a.store.blobs with reads := a.store.blobs.reads + more } } }

/-- Whatever the cache offers for a file is what the record of the file decodes to. -/
def Faithful (a : Archive MemoryBlobs) : Prop := a.cache.FaithfulTo a.plain.map?

variable {a : Archive MemoryBlobs}

/-- The plain view does not count reads. -/
@[simp] theorem plain_countReads (a : Archive MemoryBlobs) (more : Nat) :
    (a.countReads more).plain = a.plain := rfl

@[simp] theorem permit_countReads (a : Archive MemoryBlobs) (more : Nat) :
    (a.countReads more).permit = a.permit := rfl

@[simp] theorem mk_store_countReads (a : Archive MemoryBlobs) (more : Nat) :
    Archive.mk (a.countReads more).store a.cache a.sites a.nextMap = a.countReads more := rfl

/-- Counts add up. -/
theorem countReads_countReads (a : Archive MemoryBlobs) (n m : Nat) :
    (a.countReads n).countReads m = a.countReads (n + m) := by
  simp only [countReads, Nat.add_assoc]

/-- What a reader learns from a record, with every failure. -/
def outcome (file : FileName) : Option Bytes → Except Failure (Option SpanMap)
  | none => .ok none
  | some bytes =>
    match Record.decode bytes with
    | .ok map => .ok (some map)
    | .error fault => .error (.fault (.record file fault))

/-- An own reader learns what the record of the file says. -/
theorem tryRead_own (a : Archive MemoryBlobs) (mode : AccessMode) (file : FileName) :
    a.store.tryRead (a.permit mode) file =
      (outcome file (a.plain.record? file), (a.countReads 1).store) := by
  have hread : BlobStore.read a.store.blobs Store.area file =
      (.ok (a.plain.record? file), (a.countReads 1).store.blobs) := rfl
  simp only [Store.tryRead, permit, ne_eq, not_true_eq_false, ite_false, hread]
  cases a.plain.record? file with
  | none => rfl
  | some bytes =>
      simp only [outcome]
      cases Record.decode bytes <;> rfl

/-- An own reader that passes over broken records gets the map of the file. -/
theorem read_own (a : Archive MemoryBlobs) (mode : AccessMode) (file : FileName) :
    a.store.read (a.permit mode) file = (.ok (a.plain.map? file), (a.countReads 1).store) := by
  simp only [Store.read, tryRead_own, Plain.map?]
  cases a.plain.record? file with
  | none => rfl
  | some bytes =>
      simp only [outcome, Option.bind_some]
      cases Record.decode bytes <;> rfl

/-- An own reader can list the files. -/
theorem files_own (a : Archive MemoryBlobs) (mode : AccessMode) :
    a.store.files (a.permit mode) = .ok a.plain.files := by
  simp only [Store.files, permit, ne_eq, not_true_eq_false, ite_false]
  rfl

/-- The archive over other blobs. -/
def withBlobs (a : Archive MemoryBlobs) (blobs : Std.ExtTreeMap BlobKey Bytes compare) :
    Archive MemoryBlobs :=
  { a with store := { a.store with blobs := { a.store.blobs with blobs } } }

/-- The own writer writes a record. -/
theorem write_own (a : Archive MemoryBlobs) (file : FileName) (map : SpanMap) :
    a.store.write (a.permit .exclusive) file map =
      (.ok (), (a.withBlobs (a.plain.write file map).blobs).store) := by
  simp only [Store.write, allowsWriting_own, ite_true]
  rfl

/-- The own writer removes a record and tells whether there was one. -/
theorem remove_own (a : Archive MemoryBlobs) (file : FileName) :
    a.store.remove (a.permit .exclusive) file =
      (.ok (a.plain.record? file).isSome, (a.withBlobs (a.plain.remove file).blobs).store) := by
  simp only [Store.remove, allowsWriting_own, ite_true]
  rfl

/-- A look-up that the cache cannot serve reads the record and caches what it decodes to. -/
theorem get_of_miss {held : MapId → Bool} {file : FileName} {cache : Cache}
    (hg : a.cache.get held file = (none, cache)) (mode : AccessMode) :
    a.get held (a.permit mode) file = match a.plain.map? file with
      | none => (.ok none, { (a.countReads 1) with cache := cache.countMiss })
      | some map => (.ok (some ⟨a.nextMap, map⟩), { (a.countReads 1) with
          cache := cache.countMiss.enter held file ⟨a.nextMap, map⟩
          nextMap := a.nextMap + 1 }) := by
  have hread : ({ a with cache := cache.countMiss } : Archive MemoryBlobs).store.read
      (a.permit mode) file = (.ok (a.plain.map? file), (a.countReads 1).store) :=
    read_own a mode file
  simp only [get, hg, hread]
  cases a.plain.map? file <;> rfl

/-- A look-up gives the map that the record of the file decodes to. -/
theorem get_own (h : a.Faithful) (held : MapId → Bool) (mode : AccessMode) (file : FileName) :
    ∃ found after, a.get held (a.permit mode) file = (.ok found, after) ∧
      found.map (·.map) = a.plain.map? file ∧ after.plain = a.plain ∧ after.Faithful := by
  obtain ⟨hfound, hcache⟩ := Cache.FaithfulTo.get h held file
  rcases hg : a.cache.get held file with ⟨m?, cache⟩
  rw [hg] at hfound hcache
  cases m? with
  | some m =>
      refine ⟨some m, { a with cache }, ?_, (hfound m rfl).symm, rfl, hcache⟩
      simp only [get, hg]
  | none =>
      rw [get_of_miss hg]
      cases hm : a.plain.map? file with
      | none => exact ⟨none, _, rfl, rfl, rfl, hcache⟩
      | some map =>
          refine ⟨some ⟨a.nextMap, map⟩, _, rfl, rfl, rfl, ?_⟩
          exact Cache.FaithfulTo.enter (c := cache.countMiss) hcache hm fun _ _ => rfl

/-- A look-up for a call site is refused or goes by the canonical file. -/
theorem mapForCall_own (h : a.Faithful) (held : MapId → Bool) (mode : AccessMode) (site : CallSite)
    (current : Fingerprint) :
    ∃ found after, a.mapForCall held (a.permit mode) site current = (.ok found, after) ∧
      found.map (·.map) = a.plain.mapForCall? site current ∧ after.plain = a.plain ∧
      after.Faithful := by
  have hstate : a.plain.sites.state site current = a.state site current := rfl
  simp only [mapForCall, Plain.mapForCall?, hstate]
  cases a.state site current with
  | expanding => exact ⟨none, a, rfl, rfl, rfl, h⟩
  | stale _ => exact ⟨none, a, rfl, rfl, rfl, h⟩
  | unexpanded => exact get_own h held mode _
  | expanded _ => exact get_own h held mode _

/-- A writer that stores a map writes its record. -/
theorem put_own (h : a.Faithful) (held : MapId → Bool) (file : FileName) (map : SpanMap) :
    ∃ m after, a.put held (a.permit .exclusive) file map = (.ok m, after) ∧ m.map = map ∧
      after.plain = a.plain.write file map ∧ after.Faithful := by
  refine ⟨⟨a.nextMap, map⟩, { a.withBlobs (a.plain.write file map).blobs with
    cache := a.cache.enter held file ⟨a.nextMap, map⟩
    nextMap := a.nextMap + 1 }, ?_, rfl, rfl, ?_⟩
  · simp only [put, write_own]
    rfl
  · refine Cache.FaithfulTo.enter h ?_ fun other hf => ?_
    · exact (Plain.map?_write a.plain file file map).trans (if_pos rfl)
    · exact (Plain.map?_write a.plain file other map).trans (if_neg hf)

/-- Recording an expansion writes its record and finishes the call site; the map that the site had
before is only dropped from the cache. -/
theorem record_own (h : a.Faithful) (held : MapId → Bool) (site : CallSite) {e : Expansion}
    {map : SpanMap} (hm : mapOf site e = .ok map) :
    ∃ after, a.record held (a.permit .exclusive) site e =
        (.ok (.ofFingerprint e.fingerprint), after) ∧
      after.plain = { a.plain.write (.ofFingerprint e.fingerprint) map with
        sites := a.plain.sites.finish site (.ofFingerprint e.fingerprint) } ∧
      after.Faithful := by
  obtain ⟨m, stored, hput, -, hplain, hfaithful⟩ :=
    put_own h held (.ofFingerprint e.fingerprint) map
  have hfinished : ({ stored with
      sites := stored.sites.finish site (.ofFingerprint e.fingerprint) } : Archive MemoryBlobs).plain =
        { a.plain.write (.ofFingerprint e.fingerprint) map with
          sites := a.plain.sites.finish site (.ofFingerprint e.fingerprint) } := by
    have hblobs := congrArg Plain.blobs hplain
    have hsites := congrArg Plain.sites hplain
    exact congrArg₂ (fun blobs sites => Plain.mk blobs (CallSites.finish sites site _)) hblobs hsites
  simp only [record, allowsWriting_own, ite_true, hm, hput]
  cases stored.sites.last? site with
  | none => exact ⟨_, rfl, hfinished, hfaithful⟩
  | some earlier =>
      refine ⟨_, rfl, ?_⟩
      split
      · exact ⟨hfinished, hfaithful⟩
      · exact ⟨hfinished, Cache.FaithfulTo.invalidate hfaithful fun _ _ => rfl⟩

/-- An own reader is told how each record fares. -/
theorem summarize_own (a : Archive MemoryBlobs) (mode : AccessMode) (files : List FileName) :
    a.summarize (a.permit mode) files =
      (.ok (files.filterMap fun file =>
          (a.plain.record? file).map fun bytes => .ofFile file (Plain.status file bytes)),
        a.countReads files.length) := by
  induction files generalizing a with
  | nil => rfl
  | cons file rest ih =>
      have hrest := ih (a.countReads 1)
      simp only [permit_countReads, plain_countReads, countReads_countReads] at hrest
      rw [Nat.add_comm] at hrest
      simp only [summarize, tryRead_own, mk_store_countReads, hrest]
      cases hr : a.plain.record? file with
      | none => simp [outcome, hr]
      | some bytes =>
          cases hd : Record.decode bytes with
          | ok map => simp [outcome, hr, hd, Plain.status]
          | error fault => cases fault <;> simp [outcome, hr, hd, Plain.status]

/-- A survey reads each record once. -/
theorem records_own (a : Archive MemoryBlobs) (mode : AccessMode) :
    a.records (a.permit mode) = (.ok a.plain.survey, a.countReads a.plain.files.length) := by
  simp only [records, files_own, summarize_own]
  rfl

end Archive

end MacroAtlas
