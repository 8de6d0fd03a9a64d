import MacroAtlas.Blob.Basic
import Std.Data.ExtTreeMap

/-!
# Blobs in memory

The plain blob store: a finite map that never fails. It counts the times that it was read, so that a
caller can see when a look-up was served from elsewhere.
-/

namespace MacroAtlas

/-- What a blob is kept under. -/
structure BlobKey where
  /-- The area. -/
  area : String
  /-- The file. -/
  file : FileName
  deriving DecidableEq

namespace BlobKey

/-- Keys are ordered by area, then by file. -/
instance : Ord BlobKey where
  compare := compareLex (compareOn area) (compareOn file)

instance : Std.TransOrd BlobKey :=
  inferInstanceAs (Std.TransCmp (compareLex (compareOn area) (compareOn file)))

instance : Std.LawfulEqOrd BlobKey where
  compare_self := Std.ReflOrd.compare_self
  eq_of_compare {a b} h := by
    have ⟨ha, hf⟩ := Ordering.then_eq_eq.1
      (show ((compare a.area b.area).then (compare a.file b.file)) = .eq from h)
    obtain ⟨_, _⟩ := a
    obtain ⟨_, _⟩ := b
    congr
    · exact Std.LawfulEqOrd.eq_of_compare ha
    · exact Std.LawfulEqOrd.eq_of_compare hf

end BlobKey

/-- Blobs kept in memory. -/
structure MemoryBlobs where
  /-- The blobs. -/
  blobs : Std.ExtTreeMap BlobKey Bytes compare
  /-- How often the store was read. -/
  reads : Nat

namespace MemoryBlobs

/-- A store without blobs that was never read. -/
def empty : MemoryBlobs := ⟨∅, 0⟩

/-- The blob under an area and a file. -/
def blob? (s : MemoryBlobs) (area : String) (file : FileName) : Option Bytes :=
  s.blobs[BlobKey.mk area file]?

/-- The files with a blob under an area, in the order of their names. -/
def filesOf (s : MemoryBlobs) (area : String) : List FileName :=
  (s.blobs.keys.filter fun key => key.area = area).map (·.file)

instance : BlobStore MemoryBlobs where
  read s area file := (.ok (s.blob? area file), { s with reads := s.reads + 1 })
  write s area file bytes := (.ok (), { s with blobs := s.blobs.insert ⟨area, file⟩ bytes })
  remove s area file :=
    (.ok (s.blob? area file).isSome, { s with blobs := s.blobs.erase ⟨area, file⟩ })
  files s area := .ok (s.filesOf area)

end MemoryBlobs

end MacroAtlas
