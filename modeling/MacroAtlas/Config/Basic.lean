import MacroAtlas.Cache.Basic
import MacroAtlas.FileTree.Basic
import MacroAtlas.Text.WhiteSpace
import MacroAtlas.Toml.Statement

/-!
# Configuration

A project is configured by a file with three tables, each with one setting, and each may be missing.
A table may also be an array that holds its setting first. Anything else in the file is refused.
-/

namespace MacroAtlas

/-- The configuration of a project. -/
structure Config where
  /-- The number of maps that the cache keeps alive. -/
  capacity : Nat := Cache.defaultCapacity
  /-- The directory of the store, as seen from the project. -/
  directory : String := ".expanse"
  /-- What is logged. -/
  filter : String := "warn"
  deriving DecidableEq, Repr

/-- Why a setting cannot be meant. -/
inductive Misconfiguration where
  /-- The cache would hold nothing. -/
  | zeroCapacity
  /-- The directory has a blank name. -/
  | blankDirectory
  /-- The filter is blank. -/
  | blankFilter
  deriving DecidableEq, Repr

/-- Why there is no configuration. -/
inductive ConfigFault where
  /-- The file cannot be read. -/
  | unreadable (fault : SystemFault)
  /-- The file is no configuration. -/
  | malformed
  /-- A setting cannot be meant. -/
  | invalid (reason : Misconfiguration)
  deriving DecidableEq, Repr

/-- What is wrong with a setting. -/
def Misconfiguration.message : Misconfiguration → String
  | .zeroCapacity => "cache.capacity must be at least 1"
  | .blankDirectory => "store.dir must not be empty"
  | .blankFilter => "log.filter must not be empty"

/-- The report of a fault. -/
def ConfigFault.message : ConfigFault → String
  | .unreadable fault => s!"failed to read configuration: {fault.message}"
  | .malformed => "failed to parse configuration: invalid TOML or unknown setting"
  | .invalid reason => s!"validation error: {reason.message}"

namespace Config

/-- A table of the file, or what stands in its place. -/
inductive Section where
  /-- It was opened by a header, or only by assignments to paths through it. -/
  | table (byHeader : Bool) (entries : List (String × Toml.Value))
  /-- It was assigned. -/
  | assigned (value : Toml.Value)

/-- The tables read so far, and the one that is open. -/
structure Draft where
  /-- The tables by name. -/
  sections : List (String × Section) := []
  /-- The name of the open table; at first none is. -/
  current : Option String := none

namespace Draft

/-- Gives a value to a key of a table that an assignment may still add to. -/
def assign? (d : Draft) (name key : String) (value : Toml.Value) (byHeader : Bool) : Option Draft :=
  match d.sections.lookup name with
  | some (.table header entries) =>
    if header = byHeader ∧ (entries.lookup key).isNone then
      some { d with sections := d.sections.map fun entry =>
        if entry.1 = name then (name, .table header (entries ++ [(key, value)])) else entry }
    else none
  | some (.assigned _) => none
  | none =>
    if byHeader then none
    else some { d with sections := d.sections ++ [(name, .table false [(key, value)])] }

/-- Takes a statement. No setting lies deeper than in a table, so longer paths are refused, and so
are arrays of tables. -/
def take? (d : Draft) : Toml.Statement → Option Draft
  | .table [name] =>
    if (d.sections.lookup name).isSome then none
    else some ⟨d.sections ++ [(name, .table true [])], some name⟩
  | .assignment [name] value =>
    match d.current with
    | some table => d.assign? table name value true
    | none =>
      if (d.sections.lookup name).isSome then none
      else some { d with sections := d.sections ++ [(name, .assigned value)] }
  | .assignment [name, key] value =>
    match d.current with
    | some _ => none
    | none => d.assign? name key value false
  | _ => none

end Draft

/-- The value of the only setting of a table, which may be missing. -/
def settingOf? (key : String) : Section → Option (Option Toml.Value)
  | .table _ entries | .assigned (.table _ entries) =>
    if entries.all (·.1 = key) then some (entries.lookup key) else none
  | .assigned (.array items) => some items.head?
  | .assigned _ => none

/-- The configuration with the setting of a table taken over. -/
def withSection? (c : Config) (name : String) (table : Section) : Option Config :=
  if name = "cache" then do
    match ← settingOf? "capacity" table with
    | none => return c
    | some (.integer n) => if 0 ≤ n then return { c with capacity := n.toNat } else none
    | some _ => none
  else if name = "store" then do
    match ← settingOf? "dir" table with
    | none => return c
    | some (.text directory) => return { c with directory }
    | some _ => none
  else if name = "log" then do
    match ← settingOf? "filter" table with
    | none => return c
    | some (.text filter) => return { c with filter }
    | some _ => none
  else none

/-- The configuration that a text spells, whatever its settings mean. -/
def parse? (text : String) : Option Config := do
  let draft ← (← Toml.statements? text).foldlM Draft.take? {}
  draft.sections.foldlM (fun c entry => c.withSection? entry.1 entry.2) {}

/-- The first setting that cannot be meant. -/
def misconfiguration? (c : Config) : Option Misconfiguration :=
  if c.capacity = 0 then some .zeroCapacity
  else if Text.isBlank c.directory then some .blankDirectory
  else if Text.isBlank c.filter then some .blankFilter
  else none

/-- The configuration in a text. -/
def ofText (text : String) : Except ConfigFault Config :=
  match parse? text with
  | none => .error .malformed
  | some c =>
    match c.misconfiguration? with
    | some reason => .error (.invalid reason)
    | none => .ok c

/-- The name of the configuration file of a project. -/
def fileName : String := "expanse.toml"

/-- The configuration of the project in a directory. -/
def load (tree : FileTree) (project : Path) : Except ConfigFault Config :=
  match tree.readText (project.join fileName) with
  | .error fault => .error (.unreadable fault)
  | .ok text => ofText text

/-- The configuration of the project in a directory; a project without the file has the default
one. -/
def loadOrDefault (tree : FileTree) (project : Path) : Except ConfigFault Config :=
  match load tree project with
  | .error (.unreadable .notFound) => .ok {}
  | result => result

end Config

end MacroAtlas
