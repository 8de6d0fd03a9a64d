/-!
# Arguments of a command line

Arguments are switches and operands. A switch has a long name behind two dashes and may have a
letter behind one; it may take a value or a series of them. Behind an argument of two dashes
everything is an operand.
-/

namespace MacroAtlas.Cli

/-- What follows a switch. -/
inductive Arity where
  /-- Nothing. -/
  | flag
  /-- One value. -/
  | one
  /-- A series of at least one value; the switch may be given again. -/
  | many
  /-- Nothing, and the version is asked for whatever comes next. -/
  | version
  deriving DecidableEq, Repr

/-- A switch. -/
structure Switch where
  /-- The long name. -/
  name : String
  /-- The letter, if there is one. -/
  letter : Option Char
  /-- What follows the switch. -/
  arity : Arity
  deriving DecidableEq, Repr

/-- What the arguments of one command may be. -/
structure Grammar where
  /-- The switches. -/
  switches : List Switch
  /-- The names that start a command of its own, with arguments of its own. -/
  commands : List String
  /-- The greatest number of operands. -/
  operands : Nat
  deriving DecidableEq, Repr

/-- Why the arguments are not followed. -/
inductive Halt where
  /-- The arguments do not fit the grammar. -/
  | misuse
  /-- The version is asked for. -/
  | version
  deriving DecidableEq, Repr

/-- The arguments taken so far. -/
structure Taken where
  /-- The switches given, with their values, in their order. -/
  given : List (String × List String) := []
  /-- The operands. -/
  operands : List String := []
  /-- A switch whose values are due, with those that it has. -/
  pending : Option (Switch × List String) := none
  /-- Everything is an operand from here on. -/
  literal : Bool := false
  deriving DecidableEq, Repr

namespace Taken

/-- The switch was given. -/
def has (t : Taken) (name : String) : Bool := (t.given.lookup name).isSome

/-- The value of a switch. -/
def value? (t : Taken) (name : String) : Option String := (t.given.lookup name).bind (·.head?)

/-- All values of a switch. -/
def values (t : Taken) (name : String) : List String :=
  (t.given.filter (·.1 = name)).flatMap (·.2)

/-- Takes a switch with its values. -/
def give (t : Taken) (s : Switch) (values : List String) : Except Halt Taken :=
  if s.arity ≠ .many ∧ t.has s.name then .error .misuse
  else .ok { t with given := t.given ++ [(s.name, values)] }

/-- Takes the switch whose values were due. -/
def settle (t : Taken) : Except Halt Taken :=
  match t.pending with
  | none => .ok t
  | some (_, []) => .error .misuse
  | some (s, values) => { t with pending := none }.give s values

/-- Takes a switch that may have a value attached to it. -/
def takeSwitch (t : Taken) (s : Switch) (attached : Option String) : Except Halt Taken := do
  let t ← t.settle
  match s.arity, attached with
  | .flag, none => t.give s []
  | .version, none => throw .version
  | .flag, some _ | .version, some _ => throw .misuse
  | .one, some value | .many, some value => t.give s [value]
  | .one, none | .many, none => return { t with pending := some (s, []) }

/-- Takes a switch by its long name, given without the dashes. A value is attached behind the first
equals sign. -/
def takeLong (t : Taken) (g : Grammar) (text : List Char) : Except Halt Taken :=
  let (name, rest) := text.span (· ≠ '=')
  match g.switches.find? fun s => s.name.toList = name with
  | none => .error .misuse
  | some s => t.takeSwitch s (match rest with
    | [] => none
    | _ :: value => some (String.ofList value))

/-- Takes switches by their letters. What follows the letter of a switch with a value is the
value. -/
def takeLetters (t : Taken) (g : Grammar) : List Char → Except Halt Taken
  | [] => .ok t
  | letter :: rest =>
    match g.switches.find? fun s => s.letter = some letter with
    | none => .error .misuse
    | some s =>
      match s.arity with
      | .flag | .version => do (← t.takeSwitch s none).takeLetters g rest
      | .one | .many => t.takeSwitch s (match rest with
        | [] => none
        | '=' :: value => some (String.ofList value)
        | value => some (String.ofList value))

/-- Takes an operand. -/
def takeOperand (t : Taken) (g : Grammar) (text : String) : Except Halt Taken := do
  let t ← t.settle
  if t.operands.length < g.operands then return { t with operands := t.operands ++ [text] }
  else throw .misuse

/-- Takes an argument that is a value of the switch whose values are due, or else an operand. -/
def takePlain (t : Taken) (g : Grammar) (text : String) : Except Halt Taken :=
  match t.pending with
  | none => t.takeOperand g text
  | some (s, values) =>
    if s.arity = .many then .ok { t with pending := some (s, values ++ [text]) }
    else { t with pending := none }.give s [text]

/-- Takes one argument that does not start a command. -/
def take (t : Taken) (g : Grammar) (text : String) : Except Halt Taken :=
  if t.literal then t.takeOperand g text
  else match text.toList with
    | ['-', '-'] => .ok { t with literal := true }
    | '-' :: '-' :: long => t.takeLong g long
    | '-' :: letter :: letters => t.takeLetters g (letter :: letters)
    | _ => t.takePlain g text

end Taken

/-- The arguments up to the first that starts a command, with that command and the arguments behind
it. -/
def takeAll (g : Grammar) (t : Taken) :
    List String → Except Halt (Taken × Option (String × List String))
  | [] => do return (← t.settle, none)
  | text :: rest =>
    if !t.literal && t.pending.isNone && g.commands.contains text then .ok (t, some (text, rest))
    else do takeAll g (← t.take g text) rest

end MacroAtlas.Cli
