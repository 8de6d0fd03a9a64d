import MacroAtlas.Store.Fault

/-!
# Blob stores

A blob store keeps byte strings, each under an area and a file. The layers above own what the
bytes mean. An operation takes the state of the store and returns an answer with the state after it;
listing leaves the state alone.
-/

namespace MacroAtlas

/-- What a state of type `σ` does as a store of blobs. -/
class BlobStore (σ : Type) where
  /-- The blob under an area and a file. -/
  read : σ → (area : String) → FileName → Except StoreFault (Option Bytes) × σ
  /-- Puts a blob in the place of another. -/
  write : σ → (area : String) → FileName → Bytes → Except StoreFault Unit × σ
  /-- Removes a blob; tells whether there was one. -/
  remove : σ → (area : String) → FileName → Except StoreFault Bool × σ
  /-- The files with a blob under an area, in the order of their names. -/
  files : σ → (area : String) → Except StoreFault (List FileName)

end MacroAtlas
