import MacroAtlas.Cli.Arguments

/-!
# Requests

What a user asks for: one of four commands, with options that may stand in front of the command or
behind it. Behind it they count more.
-/

namespace MacroAtlas.Cli

/-- The form of a listing. -/
inductive ListingFormat where
  /-- A line per record. -/
  | text
  /-- A document in JSON. -/
  | json
  deriving DecidableEq, Repr

/-- What to do with the store. -/
inductive Command where
  /-- List the records. -/
  | list (format : ListingFormat)
  /-- Show the links of a record. -/
  | show (file : String)
  /-- Map a span through a record, towards the expansion if `reverse`, and locate the answers in a
  text file if one is named. -/
  | map (file : String) (start : UInt32) (stop : Option UInt32) (reverse : Bool)
      (text : Option String)
  /-- Remove broken records, and records that are not among the fingerprints to keep if there are
  any. -/
  | collect (keep : List String)
  deriving DecidableEq, Repr

/-- What holds for all commands. -/
structure Options where
  /-- Nothing but answers and errors is printed. -/
  quiet : Bool
  /-- The directory of the project, or its configuration file. -/
  config : Option String
  /-- The directory of the store. -/
  store : Option String
  deriving DecidableEq, Repr

/-- A command with its options. -/
structure Request where
  /-- The options. -/
  options : Options
  /-- The command. -/
  command : Command
  deriving DecidableEq, Repr

/-- The switches that every command has. -/
def commonSwitches : List Switch :=
  [⟨"quiet", some 'q', .flag⟩, ⟨"verbose", some 'v', .flag⟩, ⟨"config", none, .one⟩,
    ⟨"store", none, .one⟩]

/-- The arguments in front of the command. -/
def mainGrammar : Grammar :=
  ⟨commonSwitches ++ [⟨"version", some 'V', .version⟩], ["list", "show", "map", "gc"], 0⟩

/-- The arguments behind a command. -/
def grammarOf (command : String) : Grammar :=
  let own : List Switch :=
    if command = "list" then [⟨"format", some 'f', .one⟩]
    else if command = "map" then [⟨"reverse", some 'r', .flag⟩, ⟨"text", none, .one⟩]
    else if command = "gc" then [⟨"keep", none, .many⟩]
    else []
  let operands := if command = "show" then 1 else if command = "map" then 3 else 0
  ⟨commonSwitches ++ own, [], operands⟩

/-- The offset that an argument spells in decimal digits, of which a sign may stand in front. -/
def offsetOf? (text : String) : Option UInt32 :=
  let (negative, digits) := match text.toList with
    | '+' :: digits => (false, digits)
    | '-' :: digits => (true, digits)
    | digits => (false, digits)
  let n := digits.foldl (fun n c => 10 * n + (c.toNat - '0'.toNat)) 0
  if digits.isEmpty ∨ !digits.all Char.isDigit then none
  else if n < UInt32.size ∧ (!negative ∨ n = 0) then some n.toUInt32
  else none

/-- The form with a given name. -/
def ListingFormat.ofText? (text : String) : Option ListingFormat :=
  if text = "text" then some .text else if text = "json" then some .json else none

/-- The command with a given name and arguments. -/
def Command.ofTaken? (name : String) (t : Taken) : Option Command :=
  if name = "list" then
    match t.value? "format" with
    | none => some (.list .text)
    | some text => (ListingFormat.ofText? text).map .list
  else if name = "show" then t.operands.head?.map .show
  else if name = "map" then do
    let file ← t.operands[0]?
    let start ← offsetOf? (← t.operands[1]?)
    let stop ← match t.operands[2]? with
      | none => some none
      | some text => (offsetOf? text).map some
    return .map file start stop (t.has "reverse") (t.value? "text")
  else if name = "gc" then some (.collect (t.values "keep"))
  else none

/-- The request that arguments spell. -/
def Request.ofArguments (arguments : List String) : Except Halt Request := do
  match ← takeAll mainGrammar {} arguments with
  | (_, none) => throw .misuse
  | (outer, some (name, rest)) =>
    let (inner, _) ← takeAll (grammarOf name) {} rest
    match Command.ofTaken? name inner with
    | none => throw .misuse
    | some command =>
      let either (key : String) : Option String := (inner.value? key).or (outer.value? key)
      return ⟨⟨inner.has "quiet" || outer.has "quiet", either "config", either "store"⟩, command⟩

end MacroAtlas.Cli
