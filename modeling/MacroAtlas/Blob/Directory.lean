import MacroAtlas.Blob.Basic
import MacroAtlas.FileTree.Basic

/-!
# Blobs in a directory

A blob is a file in the directory of its area. Writing never touches it before the blob is complete:
a temporary file is created, filled and renamed over it. Temporary files bear the number of the run
and one within it, a machine word that starts anew after the last one.
-/

namespace MacroAtlas

/-- Blobs kept in a directory of a file tree. -/
structure DirectoryBlobs where
  /-- The directory that holds the blobs. -/
  root : Path
  /-- The file tree. -/
  tree : FileTree
  /-- The number of this run, which no other run has. -/
  run : UInt32
  /-- The number of the next temporary file. -/
  nextTemporary : UInt64

namespace DirectoryBlobs

/-- A store in a directory, at the start of the run with a number. -/
def ofTree (root : Path) (tree : FileTree) (run : Nat) : DirectoryBlobs :=
  ⟨root, tree, run.toUInt32, 0⟩

/-- The directory of an area. -/
def directory (s : DirectoryBlobs) (area : String) : Path := s.root.join area

/-- The file that holds a blob. -/
def blobPath (s : DirectoryBlobs) (area : String) (file : FileName) : Path :=
  (s.directory area).join file.text

/-- The temporary file with a number. -/
def temporaryPath (s : DirectoryBlobs) (area : String) (number : UInt64) : Path :=
  (s.directory area).join s!"{String.ofList temporaryMark}{s.run}-{number}"

/-- The bytes under an area and a file. -/
def read (s : DirectoryBlobs) (area : String) (file : FileName) :
    Except StoreFault (Option Bytes) :=
  let path := s.blobPath area file
  match s.tree.readFile path with
  | .ok bytes => .ok (some bytes)
  | .error .notFound => .ok none
  | .error fault => .error (.system path.text fault)

/-- Makes the directory of an area. -/
def prepare (s : DirectoryBlobs) (area : String) : Except StoreFault Unit × DirectoryBlobs :=
  let path := s.directory area
  match s.tree.createDirectories path with
  | (.ok _, tree) => (.ok (), { s with tree })
  | (.error fault, tree) => (.error (.system path.text fault), { s with tree })

/-- Takes the number of the next temporary file and creates it empty. -/
def stage (s : DirectoryBlobs) (area : String) : Except StoreFault UInt64 × DirectoryBlobs :=
  let number := s.nextTemporary
  let path := s.temporaryPath area number
  let counted := { s with nextTemporary := number + 1 }
  match s.tree.createFile path with
  | .ok tree => (.ok number, { counted with tree })
  | .error fault => (.error (.system path.text fault), counted)

/-- Writes bytes into a temporary file. -/
def fill (s : DirectoryBlobs) (area : String) (number : UInt64) (bytes : Bytes) :
    Except StoreFault Unit × DirectoryBlobs :=
  let path := s.temporaryPath area number
  match s.tree.fillFile path bytes with
  | .ok tree => (.ok (), { s with tree })
  | .error fault => (.error (.system path.text fault), s)

/-- Renames a temporary file over the file of a blob. -/
def publish (s : DirectoryBlobs) (area : String) (number : UInt64) (file : FileName) :
    Except StoreFault Unit × DirectoryBlobs :=
  let path := s.blobPath area file
  match s.tree.renameFile (s.temporaryPath area number) path with
  | .ok tree => (.ok (), { s with tree })
  | .error fault => (.error (.system path.text fault), s)

/-- Removes a temporary file if it can be removed. -/
def discard (s : DirectoryBlobs) (area : String) (number : UInt64) : DirectoryBlobs :=
  match s.tree.removeFile (s.temporaryPath area number) with
  | .ok tree => { s with tree }
  | .error _ => s

/-- Puts a blob in the place of another, all at once. -/
def write (s : DirectoryBlobs) (area : String) (file : FileName) (bytes : Bytes) :
    Except StoreFault Unit × DirectoryBlobs :=
  match s.prepare area with
  | (.error fault, s) => (.error fault, s)
  | (.ok _, s) =>
    match s.stage area with
    | (.error fault, s) => (.error fault, s)
    | (.ok number, s) =>
      match s.fill area number bytes with
      | (.error fault, s) => (.error fault, s)
      | (.ok _, s) =>
        match s.publish area number file with
        | (.error fault, s) => (.error fault, s.discard area number)
        | (.ok _, s) => (.ok (), s)

/-- Removes a blob; tells whether there was one. -/
def remove (s : DirectoryBlobs) (area : String) (file : FileName) :
    Except StoreFault Bool × DirectoryBlobs :=
  let path := s.blobPath area file
  match s.tree.removeFile path with
  | .ok tree => (.ok true, { s with tree })
  | .error .notFound => (.ok false, s)
  | .error fault => (.error (.system path.text fault), s)

/-- The files with a blob under an area, in the order of their names. -/
def files (s : DirectoryBlobs) (area : String) : Except StoreFault (List FileName) :=
  let path := s.directory area
  if s.tree.holds path then
    match s.tree.readDirectory path with
    | .error fault => .error (.system path.text fault)
    | .ok names =>
      let plain := names.filter fun name => s.tree.isFile (path.join name)
      .ok ((plain.filterMap FileName.ofText?).mergeSort FileName.le)
  else .ok []

instance : BlobStore DirectoryBlobs where
  read s area file := (s.read area file, s)
  write := write
  remove := remove
  files := files

end DirectoryBlobs

end MacroAtlas
