import MacroAtlas.Archive.Basic
import MacroAtlas.Proofs.Archive.CallSites
import MacroAtlas.Proofs.Blob.Directory
import MacroAtlas.Proofs.FileName.Canonical
import MacroAtlas.Proofs.Payload.Shortest

/-!
# Recording is all or nothing

An expansion is recorded in steps that may end early: the permit, the bounds of the links, their
map, and at last the write. Nothing else is touched before the write has succeeded, and nothing can
fail after it.
-/

namespace MacroAtlas

open DurableBlobStore

namespace Archive

/-- An expansion has a map if its links lie in its text and agree with each other. -/
theorem mapOf_eq_ok_iff {site : CallSite} {e : Expansion} {map : SpanMap} :
    mapOf site e = .ok map ↔
      (∀ l ∈ e.links, l.target.stop.toNat ≤ e.text.utf8ByteSize) ∧
        SpanMap.ofLinks e.links = .ok map := by
  have hlinks : mapOfLinks e.links = .ok map ↔ SpanMap.ofLinks e.links = .ok map := by
    rw [mapOfLinks]
    cases SpanMap.ofLinks e.links <;> simp [Except.mapError]
  unfold mapOf
  cases hf : e.links.find? fun l => e.text.utf8ByteSize < l.target.stop.toNat with
  | some outside =>
      have hmem := List.mem_of_find?_eq_some hf
      have hover : e.text.utf8ByteSize < outside.target.stop.toNat := by
        simpa using List.find?_some hf
      constructor
      · intro h
        cases h
      · rintro ⟨hinside, -⟩
        exact absurd (hinside outside hmem) (Nat.not_le.mpr hover)
  | none =>
      have hinside : ∀ l ∈ e.links, l.target.stop.toNat ≤ e.text.utf8ByteSize := by
        simpa using List.find?_eq_none.mp hf
      simp only [hlinks]
      exact ⟨fun h => ⟨hinside, h⟩, And.right⟩

section Recorded

variable {σ : Type} [BlobStore σ] (a : Archive σ) (held : MapId → Bool) (permit : Permit)
  (site : CallSite) (e : Expansion)

/-- The own writer writes the blob of the record. -/
theorem write_own_eq (file : FileName) (map : SpanMap) :
    a.store.write (a.permit .exclusive) file map =
      ((BlobStore.write a.store.blobs Store.area file (Record.encode map)).1,
        { a.store with
          blobs := (BlobStore.write a.store.blobs Store.area file (Record.encode map)).2 }) := by
  simp only [Store.write, allowsWriting_own, ite_true]

/-- The cache once a new map of a call site is in a file. An earlier one of the site is dropped. -/
def recordedCache (file : FileName) (map : SpanMap) : Cache :=
  let entered := a.cache.enter held file ⟨a.nextMap, map⟩
  match a.sites.last? site with
  | some earlier => if earlier = file then entered else entered.invalidate earlier
  | none => entered

/-- The archive once a new map of a call site is in a file, over the store with its record. -/
def recorded (file : FileName) (map : SpanMap) (store : Store σ) : Archive σ where
  store := store
  cache := a.recordedCache held site file map
  sites := a.sites.finish site file
  nextMap := a.nextMap + 1

/-- All that recording an expansion comes to. -/
theorem record_eq :
    a.record held permit site e =
      if a.store.allowsWriting permit then
        match mapOf site e with
        | .error fault => (.error fault, a)
        | .ok map =>
          match a.store.write permit (.ofFingerprint e.fingerprint) map with
          | (.error fault, store) => (.error fault, { a with store })
          | (.ok _, store) =>
            (.ok (.ofFingerprint e.fingerprint),
              a.recorded held site (.ofFingerprint e.fingerprint) map store)
      else (.error (.stateChangeDenied site), a) := by
  unfold record
  split
  · cases mapOf site e with
    | error fault => rfl
    | ok map =>
        simp only [put]
        rcases a.store.write permit (.ofFingerprint e.fingerprint) map with ⟨fault | _, store⟩
        · rfl
        · simp only [recorded, recordedCache]
          cases a.sites.last? site with
          | none => rfl
          | some earlier =>
              simp only
              split <;> rfl
  · rfl

/-- How recording an expansion can end. -/
inductive Records (a : Archive σ) (held : MapId → Bool) (permit : Permit) (site : CallSite)
    (e : Expansion) : Except StoreFault FileName × Archive σ → Prop
  /-- The permit does not allow it, or the expansion has no map. -/
  | refused (fault : StoreFault) : Records a held permit site e (.error fault, a)
  /-- The record cannot be written. -/
  | unwritten {map : SpanMap} {fault : StoreFault} {store : Store σ}
      (map_eq : mapOf site e = .ok map)
      (write : a.store.write permit (.ofFingerprint e.fingerprint) map = (.error fault, store)) :
      Records a held permit site e (.error fault, { a with store })
  /-- The record is written, and the rest follows. -/
  | written {map : SpanMap} {store : Store σ} (map_eq : mapOf site e = .ok map)
      (write : a.store.write permit (.ofFingerprint e.fingerprint) map = (.ok (), store)) :
      Records a held permit site e (.ok (.ofFingerprint e.fingerprint),
        a.recorded held site (.ofFingerprint e.fingerprint) map store)

/-- A recording ends in one of these ways. -/
theorem records_record : Records a held permit site e (a.record held permit site e) := by
  rw [record_eq]
  split
  · cases hm : mapOf site e with
    | error fault => exact .refused fault
    | ok map =>
        rcases hw : a.store.write permit (.ofFingerprint e.fingerprint) map with ⟨fault | _, store⟩
        · simp only [hw]
          exact .unwritten hm hw
        · simp only [hw]
          exact .written hm hw
  · exact .refused _

/-- A recording that fails has at most tried to write. -/
theorem record_of_error {fault : StoreFault}
    (h : (a.record held permit site e).1 = .error fault) :
    ∃ store, (a.record held permit site e).2 = { a with store } ∧
      (store = a.store ∨ ∃ map, mapOf site e = .ok map ∧
        a.store.write permit (.ofFingerprint e.fingerprint) map = (.error fault, store)) := by
  have hrecords := a.records_record held permit site e
  generalize a.record held permit site e = answered at h hrecords ⊢
  cases hrecords with
  | refused _ => exact ⟨a.store, rfl, Or.inl rfl⟩
  | unwritten map_eq write =>
      obtain rfl := Except.error.inj h
      exact ⟨_, rfl, Or.inr ⟨_, map_eq, write⟩⟩
  | written => cases h

/-- A recording that succeeds has written the record of the map. -/
theorem record_of_ok {file : FileName} (h : (a.record held permit site e).1 = .ok file) :
    file = .ofFingerprint e.fingerprint ∧ ∃ map store, mapOf site e = .ok map ∧
      a.store.write permit file map = (.ok (), store) ∧
      (a.record held permit site e).2 = a.recorded held site file map store := by
  have hrecords := a.records_record held permit site e
  generalize a.record held permit site e = answered at h hrecords ⊢
  cases hrecords with
  | refused _ => cases h
  | unwritten write => cases h
  | written map_eq write =>
      obtain rfl := Except.ok.inj h
      exact ⟨rfl, _, _, map_eq, write, rfl⟩

/-- An own writer succeeds exactly if the expansion has a map and its record can be written. -/
theorem record_own_eq_ok_iff {file : FileName} :
    (a.record held (a.permit .exclusive) site e).1 = .ok file ↔
      file = .ofFingerprint e.fingerprint ∧ ∃ map, mapOf site e = .ok map ∧
        (BlobStore.write a.store.blobs Store.area file (Record.encode map)).1 = .ok () := by
  constructor
  · intro h
    obtain ⟨hfile, map, store, hm, hw, -⟩ := a.record_of_ok held _ site e h
    rw [write_own_eq] at hw
    exact ⟨hfile, map, hm, congrArg Prod.fst hw⟩
  · rintro ⟨rfl, map, hm, hw⟩
    rw [record_eq, if_pos a.allowsWriting_own, hm]
    simp only [write_own_eq, hw]

end Recorded

variable {σ : Type} [BlobStore σ] [DurableBlobStore σ]

/-- Recording succeeds with everything in its place, or fails and changes nothing but what a failed
write does to the blobs. -/
theorem record_all_or_nothing (a : Archive σ) (held : MapId → Bool) (site : CallSite)
    (e : Expansion) :
    let file := FileName.ofFingerprint e.fingerprint
    let write := fun map => BlobStore.write a.store.blobs Store.area file (Record.encode map)
    let result := (a.record held (a.permit .exclusive) site e).1
    let after := (a.record held (a.permit .exclusive) site e).2
    ((∃ stored, result = .ok stored) ↔
      ∃ map, SpanMap.ofLinks e.links = .ok map ∧
        (∀ l ∈ e.links, l.target.stop.toNat ≤ e.text.utf8ByteSize) ∧ (write map).1 = .ok ()) ∧
    (∀ fault, result = .error fault →
      -- The cache, the call sites and the rest are the same, and no record is lost.
      (∃ blobs, after = { a with store := { a.store with blobs } }) ∧
      (∀ other bytes, blob? a.store.blobs Store.area other = some bytes →
        blob? after.store.blobs Store.area other = some bytes) ∧
      -- Where the failed write leaves the blobs alone, they are the same.
      ∀ area, (∀ map reason, SpanMap.ofLinks e.links = .ok map → (write map).1 = .error reason →
          ∀ other, blob? (write map).2 area other = blob? a.store.blobs area other) →
        ∀ other, blob? after.store.blobs area other = blob? a.store.blobs area other) ∧
    ∀ stored, result = .ok stored →
      (stored = file ∧ stored.fingerprint? = some e.fingerprint) ∧
      (∃ bytes map, blob? after.store.blobs Store.area stored = some bytes ∧
        Record.decode bytes = .ok map ∧ SpanMap.ofLinks e.links = .ok map) ∧
      (after.sites.entry? site = some (.expanded stored) ∧
        after.state site e.fingerprint = .expanded stored) ∧
      (∀ other bytes, other ≠ stored → blob? a.store.blobs Store.area other = some bytes →
        blob? after.store.blobs Store.area other = some bytes) ∧
      ∀ other, other ≠ site → after.sites.entry? other = a.sites.entry? other := by
  intro file write result after
  refine ⟨⟨?_, ?_⟩, fun fault hfault => ?_, fun stored hstored => ?_⟩
  · rintro ⟨stored, hstored⟩
    obtain ⟨rfl, map, hm, hw⟩ := (a.record_own_eq_ok_iff held site e).mp hstored
    obtain ⟨hinside, hlinks⟩ := mapOf_eq_ok_iff.mp hm
    exact ⟨map, hlinks, hinside, hw⟩
  · rintro ⟨map, hlinks, hinside, hw⟩
    have hm : mapOf site e = .ok map := mapOf_eq_ok_iff.mpr ⟨hinside, hlinks⟩
    exact ⟨file, (a.record_own_eq_ok_iff held site e).mpr ⟨rfl, map, hm, hw⟩⟩
  · obtain ⟨store, (hafter : after = _), rfl | ⟨map, hm, hw⟩⟩ :=
      a.record_of_error held _ site e hfault
    · rw [hafter]
      exact ⟨⟨a.store.blobs, rfl⟩, fun _ _ => id, fun _ _ _ => rfl⟩
    · rw [write_own_eq] at hw
      obtain ⟨hresult, rfl⟩ := Prod.mk.inj hw
      rw [hafter]
      refine ⟨⟨_, rfl⟩, fun other bytes hb => ?_, fun area hsame => ?_⟩
      · exact keeps_write hb fun _ => ⟨fault, hresult⟩
      · exact hsame map fault (mapOf_eq_ok_iff.mp hm).2 hresult
  · obtain ⟨rfl, map, store, hm, hw, (hafter : after = _)⟩ := a.record_of_ok held _ site e hstored
    rw [write_own_eq] at hw
    obtain ⟨hresult, rfl⟩ := Prod.mk.inj hw
    have hentry := a.sites.entry?_finish site
    rw [hafter]
    refine ⟨⟨rfl, FileName.fingerprint?_ofFingerprint _⟩, ⟨Record.encode map, map, ?_, ?_, ?_⟩,
      ⟨?_, ?_⟩, fun other bytes hne hb => ?_, fun other hne => ?_⟩
    · exact blob?_write hresult
    · exact Record.decode_encode map
    · exact (mapOf_eq_ok_iff.mp hm).2
    · exact (hentry site _).trans (if_pos rfl)
    · have hfinished := (hentry site (.ofFingerprint e.fingerprint)).trans (if_pos rfl)
      simp only [state, recorded, CallSites.state, hfinished, FileName.fingerprint?_ofFingerprint,
        ite_true]
    · exact keeps_write hb fun hsame => absurd hsame.symm hne
    · exact (hentry other _).trans (if_neg hne.symm)

/-- A directory is in the way of the temporary file. The expansion under way can still be given up
for the last one. -/
theorem record_all_or_nothing_blocked :
    let last : FileName := ⟨"last.rs", by decide⟩
    let next : Expansion := ⟨.ofContent [], .ofContent [], "", []⟩
    let tree := (((FileTree.empty.put ["store"] .directory).put ["store", Store.area]
      .directory).put ["store", Store.area, "last.rs"] (.file [2, 0, 0])).put
      ["store", Store.area, ".tmp-7-0"] .directory
    let a : Archive DirectoryBlobs :=
      { ofBlobs (.ofTree (.ofText [] "store") tree 7) 0 1 with
        sites := (CallSites.empty.finish "site" last).start "site" }
    let recorded := a.record (fun _ => false) (a.permit .exclusive) "site" next
    recorded.1 = .error (.system "store/expanse.macro.range_map/.tmp-7-0" .isDirectory) ∧
      blob? recorded.2.store.blobs Store.area last = some [2, 0, 0] ∧
      (∀ area other, blob? recorded.2.store.blobs area other = blob? a.store.blobs area other) ∧
      CallSites.entry? recorded.2.sites "site" = some (.expanding (some last)) ∧
      CallSites.entry? (recorded.2.sites.giveUp "site") "site" = some (.expanded last) := by
  intro last next tree a recorded
  have hfault : recorded.1 = .error
      (.system "store/expanse.macro.range_map/.tmp-7-0" .isDirectory) := by decide +kernel
  have hkept : blob? a.store.blobs Store.area last = some [2, 0, 0] := by decide +kernel
  obtain ⟨-, hfailed, -⟩ := a.record_all_or_nothing (fun _ => false) "site" next
  obtain ⟨⟨blobs, hrest⟩, hrecords, hblobs⟩ := hfailed _ hfault
  have hsites : recorded.2.sites = a.sites := by
    have hsame := congrArg Archive.sites hrest
    exact hsame
  refine ⟨hfault, hrecords last _ hkept, fun area => hblobs area fun map _ hmap _ other => ?_, ?_, ?_⟩
  · have hnone : SpanMap.ofLinks next.links = .ok .empty := by decide +kernel
    obtain rfl := Except.ok.inj (hnone.symm.trans hmap)
    refine DirectoryBlobs.blob?_of_tree_eq ?_ (congrArg FileTree.mk ?_) area other
    · decide +kernel
    · decide +kernel
  · rw [hsites]
    decide +kernel
  · rw [hsites]
    decide +kernel

/-- In memory, a recording that succeeds changes no other blob in any area. -/
theorem blob?_record_of_ok {a : Archive MemoryBlobs} {held : MapId → Bool} {site : CallSite}
    {e : Expansion} {stored : FileName}
    (h : (a.record held (a.permit .exclusive) site e).1 = .ok stored) {area : String}
    {other : FileName} (hne : (Store.area, stored) ≠ (area, other)) :
    blob? (a.record held (a.permit .exclusive) site e).2.store.blobs area other =
      blob? a.store.blobs area other := by
  obtain ⟨rfl, map, store, -, hw, hafter⟩ := a.record_of_ok held _ site e h
  rw [write_own_eq] at hw
  obtain ⟨-, rfl⟩ := Prod.mk.inj hw
  rw [hafter]
  refine (a.store.blobs.blob?_write Store.area _ (Record.encode map) area other).trans (if_neg ?_)
  rintro ⟨rfl, rfl⟩
  exact hne rfl

end Archive

end MacroAtlas
