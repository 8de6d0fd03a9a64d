import MacroAtlas.Blob.Directory
import MacroAtlas.Blob.Memory

/-!
# Either kind of blob store

A `Backend` is a blob store of one of the two kinds. A file tree belongs to it in any case, but the
store in memory does not use it.
-/

namespace MacroAtlas

/-- A blob store of either kind. -/
inductive Backend where
  /-- A store in memory, beside a file tree. -/
  | memory (blobs : MemoryBlobs) (tree : FileTree)
  /-- A store in a directory of a file tree. -/
  | directory (blobs : DirectoryBlobs)

namespace Backend

/-- The file tree. -/
def tree : Backend → FileTree
  | .memory _ tree => tree
  | .directory blobs => blobs.tree

/-- The backend with another file tree. -/
def withTree (tree : FileTree) : Backend → Backend
  | .memory blobs _ => .memory blobs tree
  | .directory blobs => .directory { blobs with tree }

/-- How often the store was read, where that is counted. -/
def reads? : Backend → Option Nat
  | .memory blobs _ => some blobs.reads
  | .directory _ => none

instance : BlobStore Backend where
  read
    | .memory blobs tree, area, file =>
      let (result, blobs) := BlobStore.read blobs area file
      (result, .memory blobs tree)
    | .directory blobs, area, file =>
      let (result, blobs) := BlobStore.read blobs area file
      (result, .directory blobs)
  write
    | .memory blobs tree, area, file, bytes =>
      let (result, blobs) := BlobStore.write blobs area file bytes
      (result, .memory blobs tree)
    | .directory blobs, area, file, bytes =>
      let (result, blobs) := BlobStore.write blobs area file bytes
      (result, .directory blobs)
  remove
    | .memory blobs tree, area, file =>
      let (result, blobs) := BlobStore.remove blobs area file
      (result, .memory blobs tree)
    | .directory blobs, area, file =>
      let (result, blobs) := BlobStore.remove blobs area file
      (result, .directory blobs)
  files
    | .memory blobs _, area => BlobStore.files blobs area
    | .directory blobs, area => BlobStore.files blobs area

end Backend

end MacroAtlas
