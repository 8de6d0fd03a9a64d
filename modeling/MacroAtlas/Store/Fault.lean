import MacroAtlas.FileName
import MacroAtlas.FileTree.Fault
import MacroAtlas.Record
import MacroAtlas.Text.Quoted

/-!
# What can go wrong around stored expansions

A `StoreFault` says why an operation on stored expansions was refused or failed. Faults of a single
record are recoverable: the expansion is computed again. All others are reported to the caller.
-/

namespace MacroAtlas

/-- The place of a macro call, as the host names it. -/
abbrev CallSite := String

/-- Why an operation on stored expansions failed. -/
inductive StoreFault where
  /-- The file system refused an operation on a path. -/
  | system (path : String) (fault : SystemFault)
  /-- The record of a file yields no map. -/
  | record (file : FileName) (fault : RecordFault)
  /-- The caller holds no exclusive permit for the store of a file. -/
  | writeDenied (file : FileName)
  /-- The caller holds no exclusive permit for the state of a call site. -/
  | stateChangeDenied (site : CallSite)
  /-- A target ends past the text of an expansion, whose length in bytes is given. -/
  | outsideExpansion (site : CallSite) (target : Span) (length : Nat)
  /-- A text names no expansion file. -/
  | invalidName (name : String)
  /-- The links of an expansion form no map. -/
  | invalidExpansion (fault : MapFault)
  deriving DecidableEq

namespace StoreFault

/-- The fault only means that the expansion has to be computed again. -/
def recoverable : StoreFault → Bool
  | .record _ _ => true
  | _ => false

/-- The report of a fault. -/
def message : StoreFault → String
  | .system path fault => s!"expansion store I/O error at {path}: {fault.message}"
  | .record file (.headless length) =>
    s!"corrupt expansion record for {file.text}: record is {length} bytes, shorter than its header"
  | .record file (.outdated version) =>
    s!"schema version mismatch for {file.text}: expected {Record.schemaVersion}, got {version}"
  | .record file (.damaged fault) =>
    s!"corrupt expansion record for {file.text}: {fault.message}"
  | .writeDenied file => s!"write to {file.text} denied: caller does not hold exclusive access"
  | .stateChangeDenied site =>
    s!"state change for call site {site} denied: caller does not hold exclusive access"
  | .outsideExpansion site target length =>
    s!"mapped range {target.dotted} lies outside the {length}-byte expansion of {site}"
  | .invalidName name => s!"invalid expansion file name {Text.quoted name}"
  | .invalidExpansion fault => s!"invalid expansion ranges: {fault.message}"

end StoreFault

/-- The name with a given text, or the fault that the text names no expansion file. -/
def FileName.ofText (text : String) : Except StoreFault FileName :=
  match FileName.ofText? text with
  | some file => .ok file
  | none => .error (.invalidName text)

/-- The map of links, or the fault that they form none. -/
def mapOfLinks (links : List Link) : Except StoreFault SpanMap :=
  (SpanMap.ofLinks links).mapError .invalidExpansion

end MacroAtlas
