import MacroAtlas.Blob.Memory

/-!
# Blob stores that lose nothing

A durable store has each blob until it is replaced or removed, even by a write that fails. The store
in memory is durable, and so is a durable store some of whose operations fail before they are begun.
-/

namespace MacroAtlas

/-- A blob store that loses nothing. -/
class DurableBlobStore (σ : Type) [BlobStore σ] where
  /-- The blob under an area and a file. -/
  blob? : σ → (area : String) → FileName → Option Bytes
  /-- A reader that is answered is told the blob. -/
  read_eq_blob? : ∀ {s area file found},
    (BlobStore.read s area file).1 = .ok found → found = blob? s area file
  /-- Reading changes no blob. -/
  blob?_read : ∀ s area file other,
    blob? (BlobStore.read s area file).2 area other = blob? s area other
  /-- What was written is there. -/
  blob?_write : ∀ {s area file bytes}, (BlobStore.write s area file bytes).1 = .ok () →
    blob? (BlobStore.write s area file bytes).2 area file = some bytes
  /-- Writing takes away no blob of another file, and none at all when it fails. -/
  keeps_write : ∀ {s area file bytes other blob}, blob? s area other = some blob →
    (file = other → ∃ fault, (BlobStore.write s area file bytes).1 = .error fault) →
    blob? (BlobStore.write s area file bytes).2 area other = some blob
  /-- Removing takes away no blob of another file. -/
  keeps_remove : ∀ {s area file other blob}, blob? s area other = some blob → file ≠ other →
    blob? (BlobStore.remove s area file).2 area other = some blob

namespace MemoryBlobs

/-- Writing replaces one blob. -/
theorem blob?_write (s : MemoryBlobs) (area : String) (file : FileName) (bytes : Bytes)
    (place : String) (other : FileName) : blob? (BlobStore.write s area file bytes).2 place other =
      if area = place ∧ file = other then some bytes else s.blob? place other := by
  unfold blob?
  simp only [BlobStore.write, Std.ExtTreeMap.getElem?_insert, Std.LawfulEqCmp.compare_eq_iff_eq,
    BlobKey.mk.injEq]

/-- Removing takes one blob away. -/
theorem blob?_remove (s : MemoryBlobs) (area : String) (file : FileName) (place : String)
    (other : FileName) : blob? (BlobStore.remove s area file).2 place other =
      if area = place ∧ file = other then none else s.blob? place other := by
  unfold blob?
  simp only [BlobStore.remove, Std.ExtTreeMap.getElem?_erase, Std.LawfulEqCmp.compare_eq_iff_eq,
    BlobKey.mk.injEq]

instance : DurableBlobStore MemoryBlobs where
  blob? := blob?
  read_eq_blob? h := (Except.ok.inj h).symm
  blob?_read _ _ _ _ := rfl
  blob?_write _ := (blob?_write _ _ _ _ _ _).trans (if_pos ⟨rfl, rfl⟩)
  keeps_write hb hf := by
    refine (blob?_write _ _ _ _ _ _).trans ((if_neg fun heq => ?_).trans hb)
    obtain ⟨fault, hfault⟩ := hf heq.2
    cases hfault
  keeps_remove hb hne := (blob?_remove _ _ _ _ _).trans ((if_neg fun heq => hne heq.2).trans hb)

end MemoryBlobs

/-- A blob store whose next operations may fail. -/
structure FaultyBlobs (σ : Type) where
  /-- The store. -/
  blobs : σ
  /-- What becomes of the next operations; those after them go to the store. -/
  script : List (Option StoreFault)

namespace FaultyBlobs

variable {σ : Type}

/-- Does something to the store unless the script has a fault for it. -/
def attempt {α : Type} (s : FaultyBlobs σ) (act : σ → Except StoreFault α × σ) :
    Except StoreFault α × FaultyBlobs σ :=
  match s.script with
  | some fault :: script => (.error fault, { s with script })
  | _ =>
    let (result, blobs) := act s.blobs
    (result, ⟨blobs, s.script.tail⟩)

/-- What is done to the store either fails and changes nothing or goes as it does without a
script. -/
theorem attempt_eq {α : Type} (s : FaultyBlobs σ) (act : σ → Except StoreFault α × σ) :
    (∃ fault, (s.attempt act).1 = .error fault ∧ (s.attempt act).2.blobs = s.blobs) ∨
      (s.attempt act).1 = (act s.blobs).1 ∧ (s.attempt act).2.blobs = (act s.blobs).2 := by
  unfold attempt
  split
  · exact Or.inl ⟨_, rfl, rfl⟩
  · exact Or.inr ⟨rfl, rfl⟩

variable [BlobStore σ]

instance : BlobStore (FaultyBlobs σ) where
  read s area file := s.attempt fun blobs => BlobStore.read blobs area file
  write s area file bytes := s.attempt fun blobs => BlobStore.write blobs area file bytes
  remove s area file := s.attempt fun blobs => BlobStore.remove blobs area file
  files s area := BlobStore.files s.blobs area

open DurableBlobStore in
instance [DurableBlobStore σ] : DurableBlobStore (FaultyBlobs σ) where
  blob? s := blob? s.blobs
  read_eq_blob? {s area file found} h := by
    rcases s.attempt_eq fun blobs => BlobStore.read blobs area file with ⟨fault, hf, -⟩ | ⟨hr, -⟩
    · cases hf.symm.trans h
    · exact read_eq_blob? (hr.symm.trans h)
  blob?_read s area file other := by
    rcases s.attempt_eq fun blobs => BlobStore.read blobs area file with ⟨_, -, hs⟩ | ⟨-, hs⟩
    · exact congrArg (blob? · area other) hs
    · exact (congrArg (blob? · area other) hs).trans (blob?_read s.blobs area file other)
  blob?_write {s area file bytes} h := by
    rcases s.attempt_eq fun blobs => BlobStore.write blobs area file bytes with
      ⟨fault, hf, -⟩ | ⟨hr, hs⟩
    · cases hf.symm.trans h
    · exact (congrArg (blob? · area file) hs).trans (blob?_write (hr.symm.trans h))
  keeps_write {s area file bytes other blob} hb hf := by
    rcases s.attempt_eq fun blobs => BlobStore.write blobs area file bytes with
      ⟨_, -, hs⟩ | ⟨hr, hs⟩
    · exact (congrArg (blob? · area other) hs).trans hb
    · refine (congrArg (blob? · area other) hs).trans (keeps_write hb fun heq => ?_)
      obtain ⟨fault, hfault⟩ := hf heq
      exact ⟨fault, hr.symm.trans hfault⟩
  keeps_remove {s area file other blob} hb hne := by
    rcases s.attempt_eq fun blobs => BlobStore.remove blobs area file with ⟨_, -, hs⟩ | ⟨-, hs⟩
    · exact (congrArg (blob? · area other) hs).trans hb
    · exact (congrArg (blob? · area other) hs).trans (keeps_remove hb hne)

end FaultyBlobs

end MacroAtlas
