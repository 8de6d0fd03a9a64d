import MacroAtlas.Archive.Basic
import MacroAtlas.Blob.Directory
import MacroAtlas.Cli.Request
import MacroAtlas.Config.Basic
import MacroAtlas.Json.Pretty
import MacroAtlas.SpanMap.Query
import MacroAtlas.Text.LineIndex

/-!
# Running a request

A request is run on a file tree, in a directory of it. The answer is a `Report`: what goes to the
two outputs and how the run ends. The tree afterwards lacks the records that were removed.
-/

namespace MacroAtlas.Cli

/-- The name and version of the program. -/
def banner : String := "expanse 0.1.0\n"

/-- How a run ends. -/
structure Report where
  /-- The exit status. -/
  status : Nat
  /-- What is printed. -/
  output : String
  /-- What is told beside that. -/
  notice : String
  deriving DecidableEq, Repr

namespace Report

/-- A run that ends well. -/
def success (output : String) : Report := ⟨0, output, ""⟩

/-- A run that fails. -/
def failure (message : String) : Report := ⟨1, "", s!"error: {message}\n"⟩

end Report

/-- Where a request is run. -/
structure Place where
  /-- The file tree. -/
  tree : FileTree
  /-- The directory, by its names from the top. -/
  directory : List String
  /-- The full path of the directory as it is printed. -/
  label : String

namespace Place

/-- The path that a text means here. -/
def path (p : Place) (text : String) : Path := .ofText p.directory text

/-- The text of a path without its last name; a dot when nothing is left. -/
def parentText (text : String) : String :=
  let trim (names : List (List Char)) :=
    names.dropWhile fun name => Path.isIdle (String.ofList name)
  let names := trim (trim (splitNames text.toList).reverse).tail
  if names.isEmpty then if Path.isAbsolute text then "/" else "."
  else String.ofList (List.intercalate ['/'] names.reverse)

/-- The directory of the project: the one named, or the one that holds the configuration file named,
or the present one. -/
def project (p : Place) : Option String → Path
  | none => .ofDirectory p.directory p.label
  | some text =>
    let path := p.path text
    if p.tree.isFile path ∨ path.lastName? = some Config.fileName then p.path (parentText text)
    else path

/-- The directory of the store. -/
def storeRoot (p : Place) (o : Options) (c : Config) : Path :=
  match o.store with
  | some text => p.path text
  | none => (p.project o.config).join c.directory

end Place

/-- The archive of a request. -/
abbrev ProjectArchive := Archive DirectoryBlobs

/-- The archive in the store of the project. No command writes a blob, so the run needs no number of
its own. -/
def openArchive (p : Place) (o : Options) : Except ConfigFault ProjectArchive :=
  match Config.loadOrDefault p.tree (p.project o.config) with
  | .error fault => .error fault
  | .ok c => .ok (.ofBlobs (.ofTree (p.storeRoot o c) p.tree 0) 0 c.capacity)

/-- The report of a failure. -/
def failureMessage : Failure → String
  | .fault fault => fault.message
  | .foreignPermit => "permit of another store"

/-- A line of a listing. -/
def summaryLine (r : RecordSummary) : String :=
  let status := match r.status with
    | .valid links => s!"valid, {links} pairs"
    | .outdated version => s!"outdated, schema v{version}"
    | .corrupt fault => s!"corrupt: {fault.message}"
  s!"{r.file.text}  {status}\n"

/-- An entry of a listing in JSON. -/
def summaryDocument (r : RecordSummary) : Json.Document :=
  let fingerprint := match r.fingerprint with
    | some f => .text f.text
    | none => .null
  let status : List (String × Json.Document) := match r.status with
    | .valid links => [("status", .text "valid"), ("pairs", .natural links)]
    | .outdated version => [("status", .text "outdated"), ("version", .natural version)]
    | .corrupt fault => [("status", .text "corrupt"), ("reason", .text fault.message)]
  .object ([("file", .text r.file.text), ("fingerprint", fingerprint)] ++ status)

/-- A listing. -/
def listing (records : List RecordSummary) : ListingFormat → String
  | .text => String.join (records.map summaryLine)
  | .json => (Json.Document.array (records.map summaryDocument)).pretty ++ "\n"

/-- A line about a link. -/
def linkLine (l : Link) : String :=
  let kind := if l.literal then "literal" else "synthesized"
  s!"  {l.target.text} -> {l.source.text}  {kind}\n"

/-- All about a record. -/
def recordText (file : FileName) (map : SpanMap) : String :=
  let fingerprint := match file.fingerprint? with
    | some f => s!"fingerprint {f.text}, "
    | none => ""
  s!"{file.text} ({fingerprint}{map.size} pairs)\n" ++ String.join (map.links.toList.map linkLine)

/-- A line about a span, with its position in a text if there is one. -/
def spanLine (text : Option LineIndex) (s : Span) : String :=
  let position := match text.map (·.positions? s) with
    | none => ""
    | some none => "  (outside the given text)"
    | some (some (first, last)) => s!"  {Position.rangeText first last}"
  s!"{s.text}{position}\n"

/-- The map of the file with a given name, or the message that there is none. -/
def loadMap (a : ProjectArchive) (name : String) : Except String (FileName × SpanMap) := do
  let file ← (FileName.ofText name).mapError StoreFault.message
  match ← ((a.store.tryRead (a.permit .shared) file).1).mapError failureMessage with
  | some map => return (file, map)
  | none => throw s!"no expansion record stored for {file.text}"

/-- Lists the records. -/
def runList (a : ProjectArchive) (format : ListingFormat) : Report :=
  match (a.records (a.permit .shared)).1 with
  | .ok records => .success (listing records format)
  | .error failure => .failure (failureMessage failure)

/-- Shows a record. -/
def runShow (a : ProjectArchive) (name : String) : Report :=
  match loadMap a name with
  | .ok (file, map) => .success (recordText file map)
  | .error message => .failure message

/-- Maps a span. Its text file is not opened when there is no answer. -/
def runMap (p : Place) (a : ProjectArchive) (name : String) (start : UInt32) (stop : Option UInt32)
    (reverse : Bool) (text : Option String) : Report :=
  let outcome : Except String Report := do
    let (_, map) ← loadMap a name
    let span ← (Span.ofBounds start (stop.getD start)).mapError InvertedBounds.message
    let answers := if reverse then map.toTarget span else map.toSource span
    if answers.isEmpty then return ⟨1, "", s!"{span.text} does not map to anything\n"⟩
    let index ← match text with
      | none => pure none
      | some file =>
        match p.tree.readText (p.path file) with
        | .ok content => pure (some (LineIndex.ofText content))
        | .error fault => throw fault.message
    return .success (String.join (answers.map (spanLine index)))
  match outcome with
  | .ok report => report
  | .error message => .failure message

/-- The fingerprints with the given texts. -/
def parseFingerprints (texts : List String) : Except String (List Fingerprint) :=
  texts.mapM fun text =>
    match Fingerprint.ofText? text with
    | some f => .ok f
    | none => .error s!"invalid fingerprint '{text}'"

/-- Removes the broken records, and then those that are not kept if any are to be kept; tells how
many records went. -/
def clean (a : ProjectArchive) (live : List Fingerprint) : Except Failure Nat × ProjectArchive :=
  match a.purge (a.permit .exclusive) with
  | (.error failure, a) => (.error failure, a)
  | (.ok broken, a) =>
    if live.isEmpty then (.ok broken, a)
    else
      let (result, a) := a.collect (a.permit .exclusive) live
      (result.map (broken + ·), a)

/-- Removes records. Nothing is removed when a fingerprint is misspelled. -/
def runCollect (a : ProjectArchive) (quiet : Bool) (keep : List String) : Report × ProjectArchive :=
  match parseFingerprints keep with
  | .error message => (.failure message, a)
  | .ok live =>
    match clean a live with
    | (.error failure, a) => (.failure (failureMessage failure), a)
    | (.ok removed, a) =>
      let notice := if quiet then "" else s!"     Removed {removed} expansion record(s)\n"
      (⟨0, "", notice⟩, a)

/-- Runs a request; the tree afterwards comes with the report. -/
def Request.run (r : Request) (p : Place) : Report × FileTree :=
  match openArchive p r.options with
  | .error fault => (.failure fault.message, p.tree)
  | .ok a =>
    match r.command with
    | .list format => (runList a format, p.tree)
    | .show file => (runShow a file, p.tree)
    | .map file start stop reverse text => (runMap p a file start stop reverse text, p.tree)
    | .collect keep =>
      let (report, a) := runCollect a r.options.quiet keep
      (report, a.store.blobs.tree)

/-- Runs arguments. There is no report when they are misused. -/
def run (arguments : List String) (p : Place) : Option Report × FileTree :=
  match Request.ofArguments arguments with
  | .error .misuse => (none, p.tree)
  | .error .version => (some (.success banner), p.tree)
  | .ok request =>
    let (report, tree) := request.run p
    (some report, tree)

end MacroAtlas.Cli
