import MacroAtlas.Cli.Run

/-!
# The program

The arguments of the process are run in its present directory. What the file system holds along the
paths that the request concerns is read into a file tree beforehand, and what the run removed from
that tree is removed from the file system afterwards.
-/

namespace MacroAtlas.Cli

/-- What is told when the arguments are misused. -/
def usage : String :=
  "usage: expanse [--quiet] [--config PATH] [--store DIR] COMMAND\n\n" ++
  "  list [--format text|json]\n" ++
  "  show FILE\n" ++
  "  map FILE START [END] [--reverse] [--text PATH]\n" ++
  "  gc [--keep FINGERPRINT...]\n"

/-- How the file system calls a place. -/
def placeText (place : List String) : String := "/" ++ String.intercalate "/" place

/-- What the file system holds at a place. -/
def readNode? (place : List String) : IO (Option Node) := do
  let path := (← IO.currentDir) / placeText place
  if ← path.isDir then return some .directory
  if ← path.pathExists then return some (.file (← IO.FS.readBinFile path).toList)
  return none

/-- The names in the directory at a place. -/
def readNames (place : List String) : IO (List String) := do
  let entries ← ((← IO.currentDir) / placeText place).readDir
  return entries.toList.map (·.fileName)

/-- The tree with what the file system holds along names from a place. -/
def observeFrom (t : FileTree) : List String → List String → IO FileTree
  | _, [] => return t
  | place, name :: names => do
    match t.follow place name with
    | .error _ => return t
    | .ok next =>
      match ← readNode? next with
      | none => return t
      | some node => observeFrom (t.put next node) next names

/-- The tree with what the file system holds along a path. -/
def observe (t : FileTree) (p : Path) : IO FileTree := observeFrom t p.start p.names

/-- The tree with what the file system holds in a directory. -/
def observeDirectory (t : FileTree) (p : Path) : IO FileTree := do
  let t ← observe t p
  match t.locate p with
  | .error _ => return t
  | .ok place =>
    if t.node? place ≠ some .directory then return t
    (← readNames place).foldlM (fun t name => observe t (p.join name)) t

/-- The place with what the file system holds along the paths that a request concerns. -/
def observeFor (r : Request) (p : Place) : IO Place := do
  let tree ← observeFrom p.tree [] p.directory
  let tree ← r.options.config.toList.foldlM (fun t text => observe t (p.path text)) tree
  let p := { p with tree }
  let project := p.project r.options.config
  let tree ← observe tree (project.join Config.fileName)
  let tree ← match r.command with
    | .map _ _ _ _ (some text) => observe tree (p.path text)
    | _ => pure tree
  match Config.loadOrDefault tree project with
  | .error _ => return { p with tree }
  | .ok c =>
    let tree ← observeDirectory tree ((p.storeRoot r.options c).join Store.area)
    return { p with tree }

/-- Removes from the file system what the run removed. -/
def removeMissing (before after : FileTree) : IO Unit :=
  before.nodes.toList.forM fun (place, node) => do
    if node ≠ .directory ∧ (after.node? place).isNone then IO.FS.removeFile (placeText place)

/-- Runs arguments in the present directory; the answer is the exit status. -/
def runProcess (arguments : List String) : IO UInt32 := do
  let label := (← IO.currentDir).toString
  let names := ((splitNames label.toList).map String.ofList).filter fun name => !Path.isIdle name
  let bare : Place := ⟨.empty, names, label⟩
  let place ← match Request.ofArguments arguments with
    | .ok request => observeFor request bare
    | .error _ => pure bare
  match run arguments place with
  | (none, _) =>
    IO.eprint usage
    return 2
  | (some report, tree) =>
    removeMissing place.tree tree
    IO.print report.output
    IO.eprint report.notice
    return report.status.toUInt32

end MacroAtlas.Cli

/-- Runs the program. -/
def main (arguments : List String) : IO UInt32 := MacroAtlas.Cli.runProcess arguments
