import MacroAtlas.Bytes
import MacroAtlas.FileTree.Fault
import MacroAtlas.FileTree.Path
import Std.Data.ExtTreeMap

/-!
# File trees

A `FileTree` is a finite map from places to directories and files. A place is the list of names that
lead to it from the top, which is always a directory. The first name of a path that cannot be
followed is the fault of the operation.
-/

namespace MacroAtlas

/-- What is found at a place. -/
inductive Node where
  /-- A directory. -/
  | directory
  /-- A file. -/
  | file (content : Bytes)
  deriving DecidableEq, Repr

/-- The directories and files below a top directory. -/
structure FileTree where
  /-- What is found at each place below the top. -/
  nodes : Std.ExtTreeMap (List String) Node compare

namespace FileTree

/-- The greatest number of bytes in a name. -/
def nameLimit : Nat := 255

/-- A tree with nothing below its top. -/
def empty : FileTree := ⟨∅⟩

/-- What is found at a place. -/
def node? (t : FileTree) : List String → Option Node
  | [] => some .directory
  | place => t.nodes[place]?

/-- Puts a node at a place below the top. -/
def put (t : FileTree) (place : List String) (node : Node) : FileTree := ⟨t.nodes.insert place node⟩

/-- Leaves nothing at a place. -/
def erase (t : FileTree) (place : List String) : FileTree := ⟨t.nodes.erase place⟩

/-- The place that a name means in a directory; nothing need be there. -/
def follow (t : FileTree) (place : List String) (name : String) :
    Except SystemFault (List String) :=
  match t.node? place with
  | none => .error .notFound
  | some (.file _) => .error .notDirectory
  | some .directory =>
    if Path.isIdle name then .ok place
    else if name = ".." then .ok place.dropLast
    else if nameLimit < name.utf8ByteSize then .error .nameTooLong
    else .ok (place ++ [name])

/-- The place that names lead to from another. -/
def locateFrom (t : FileTree) : List String → List String → Except SystemFault (List String)
  | place, [] => .ok place
  | place, name :: names =>
    match t.follow place name with
    | .error fault => .error fault
    | .ok next => t.locateFrom next names

/-- The place that a path leads to. A path without text leads nowhere. -/
def locate (t : FileTree) (p : Path) : Except SystemFault (List String) :=
  match p.fault? with
  | some fault => .error fault
  | none => if p.isVoid then .error .notFound else t.locateFrom p.start p.names

/-- What is found where a path leads. -/
def lookup (t : FileTree) (p : Path) : Except SystemFault Node := do
  match t.node? (← t.locate p) with
  | some node => return node
  | none => throw .notFound

/-- The path leads to something. -/
def holds (t : FileTree) (p : Path) : Bool := (t.lookup p).isOk

/-- The path leads to a file. -/
def isFile (t : FileTree) (p : Path) : Bool :=
  match t.lookup p with
  | .ok (.file _) => true
  | _ => false

/-- The content of a file. -/
def readFile (t : FileTree) (p : Path) : Except SystemFault Bytes := do
  match ← t.lookup p with
  | .file content => return content
  | .directory => throw .isDirectory

/-- The text in a file. -/
def readText (t : FileTree) (p : Path) : Except SystemFault String := do
  match (← t.readFile p).text? with
  | some text => return text
  | none => throw .notText

/-- Makes an empty file, or empties the one that is there. -/
def createFile (t : FileTree) (p : Path) : Except SystemFault FileTree := do
  let place ← t.locate p
  match t.node? place with
  | some .directory => throw .isDirectory
  | _ => return t.put place (.file [])

/-- Gives a file another content. -/
def fillFile (t : FileTree) (p : Path) (content : Bytes) : Except SystemFault FileTree := do
  let place ← t.locate p
  match t.node? place with
  | some .directory => throw .isDirectory
  | some (.file _) => return t.put place (.file content)
  | none => throw .notFound

/-- Moves a file, over another if one is in the way. -/
def renameFile (t : FileTree) (p q : Path) : Except SystemFault FileTree := do
  let place ← t.locate p
  let goal ← t.locate q
  match t.node? place, t.node? goal with
  | none, _ => throw .notFound
  | some .directory, _ => throw .isDirectory
  | some (.file _), some .directory => throw .isDirectory
  | some (.file content), _ => return (t.erase place).put goal (.file content)

/-- Removes a file. -/
def removeFile (t : FileTree) (p : Path) : Except SystemFault FileTree := do
  let place ← t.locate p
  match t.node? place with
  | some .directory => throw .isDirectory
  | some (.file _) => return t.erase place
  | none => throw .notFound

/-- The names in the directory at a place. -/
def namesAt (t : FileTree) (place : List String) : List String :=
  t.nodes.toList.filterMap fun entry =>
    if entry.1.dropLast = place then entry.1.getLast? else none

/-- The names in a directory. -/
def readDirectory (t : FileTree) (p : Path) : Except SystemFault (List String) := do
  let place ← t.locate p
  match t.node? place with
  | some .directory => return t.namesAt place
  | some (.file _) => throw .notDirectory
  | none => throw .notFound

/-- Makes the directory that names lead to from a place unless it is there; tells where it is. -/
def provideDirectory (t : FileTree) (start names : List String) :
    Except SystemFault (List String) × FileTree :=
  match t.locateFrom start names with
  | .error fault => (.error fault, t)
  | .ok place =>
    match t.node? place with
    | none => (.ok place, t.put place .directory)
    | some .directory => (.ok place, t)
    | some (.file _) => (.error .exists, t)

/-- Makes the directory that names, the last of them first, and a trail lead to from a place, with
all on the way. -/
def provideDirectories (t : FileTree) (start trail : List String) :
    List String → Except SystemFault (List String) × FileTree
  | [] => t.provideDirectory start trail
  | name :: before =>
    match t.provideDirectory start (before.reverse ++ name :: trail) with
    | (.error .notFound, _) =>
      match t.provideDirectories start [] before with
      | (.ok parent, ready) => ready.provideDirectory parent (name :: trail)
      | failed => failed
    | result => result

/-- Makes a directory with all directories on the way to it; one that exists already is fine. -/
def createDirectories (t : FileTree) (p : Path) : Except SystemFault Unit × FileTree :=
  match p.fault? with
  | some fault => (.error fault, t)
  | none =>
    let (result, made) := t.provideDirectories p.start p.trail p.telling.reverse
    (result.map fun _ => (), made)

/-- Puts a file where a path leads, with all directories on the way. What cannot be done is left
undone. -/
def install (t : FileTree) (p : Path) (content : Bytes) : FileTree :=
  if p.fault?.isSome then t
  else
    let ready := (t.provideDirectories p.start [] p.telling.dropLast.reverse).2
    match ready.createFile p with
    | .error _ => ready
    | .ok created =>
      match created.fillFile p content with
      | .error _ => created
      | .ok filled => filled

/-- What is below a directory, in byte order of the paths that lead there from it; the paths of
directories end with a separator. -/
def listing (t : FileTree) (directory : List String) : List String :=
  let below := t.nodes.toList.filter fun entry =>
    directory.isPrefixOf entry.1 && directory.length < entry.1.length
  let texts := below.map fun entry =>
    let text := String.intercalate "/" (entry.1.drop directory.length)
    if entry.2 = .directory then text ++ "/" else text
  texts.mergeSort fun a b => (compare a b).isLE

end FileTree

end MacroAtlas
