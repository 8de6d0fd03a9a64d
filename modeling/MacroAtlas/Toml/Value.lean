import MacroAtlas.Toml.Scalar

/-!
# Values of TOML

A value is a text, an integer, another scalar, an array, or a table in braces. A key is a path of
names. Arrays and tables nest to a limited depth, and so do the names of a path.
-/

namespace MacroAtlas.Toml

/-- A value. -/
inductive Value where
  /-- A text. -/
  | text (content : String)
  /-- An integer. -/
  | integer (n : Int)
  /-- A truth value, a float, a date or a time. -/
  | other
  /-- An array. -/
  | array (items : List Value)
  /-- A table; an open one is defined by paths alone, and other paths may add to it. -/
  | table (isOpen : Bool) (entries : List (String × Value))

/-- The depth that values and paths do not reach. -/
def depthLimit : Nat := 80

/-- A character of a name without quotes. -/
def isNameChar (c : Char) : Bool := c.isAlphanum || c = '-' || c = '_'

/-- One name. -/
def readName? (cs : List Char) : Option (String × List Char) :=
  match cs with
  | '"' :: _ | '\'' :: _ => readLineText? cs
  | _ =>
    match cs.span isNameChar with
    | ([], _) => none
    | (name, rest) => some (String.ofList name, rest)

/-- The names of a path, with blanks around each; a path of more names than a count is refused. -/
def readNames? : (count : Nat) → List Char → Option (List String × List Char)
  | 0, _ => none
  | count + 1, cs => do
    let (name, rest) ← readName? (skipBlanks cs)
    match skipBlanks rest with
    | '.' :: rest => do
      let (names, rest) ← readNames? count rest
      return (name :: names, rest)
    | rest => return ([name], rest)

/-- A path of names. -/
def readPath? (cs : List Char) : Option (List String × List Char) :=
  readNames? (depthLimit - 1) cs

/-- Puts a value where a path leads. The last name must be new, and the others must lead through
open tables or nothing. -/
def insert? (entries : List (String × Value)) (path : List String) (value : Value) :
    Option (List (String × Value)) :=
  match path with
  | [] => none
  | [name] => if (entries.lookup name).isSome then none else some (entries ++ [(name, value)])
  | name :: names =>
    match entries.lookup name with
    | none => (insert? [] names value).map fun inner => entries ++ [(name, .table true inner)]
    | some (.table true inner) =>
      (insert? inner names value).map fun inner =>
        entries.map fun entry => if entry.1 = name then (name, .table true inner) else entry
    | some _ => none

/-- A truth value, a number, a date or a time. -/
def readScalar? (cs : List Char) : Option (Value × List Char) :=
  match cs with
  | 't' :: 'r' :: 'u' :: 'e' :: rest => some (.other, rest)
  | 'f' :: 'a' :: 'l' :: 's' :: 'e' :: rest => some (.other, rest)
  | _ =>
    match (skipMoment? cs).or (skipFloat? cs) with
    | some rest => some (.other, rest)
    | none => (readInteger? cs).map fun (n, rest) => (.integer n, rest)

mutual

/-- A value inside `depth` arrays and tables. -/
def readValue? (depth : Nat) : (fuel : Nat) → List Char → Option (Value × List Char)
  | 0, _ => none
  | fuel + 1, cs =>
    match cs with
    | '"' :: _ | '\'' :: _ => (readText? cs).map fun (content, rest) => (.text content, rest)
    | '[' :: rest =>
      if depth + 1 < depthLimit then
        (readItems? (depth + 1) fuel rest).map fun (items, rest) => (.array items, rest)
      else none
    | '\x7b' :: rest =>
      if depth + 1 < depthLimit then
        match skipBlanks rest with
        | '\x7d' :: rest => some (.table false [], rest)
        | rest => (readEntries? (depth + 1) fuel [] rest).map fun (entries, rest) =>
          (.table false entries, rest)
      else none
    | _ => readScalar? cs

/-- The items of an array and its end. A comma may follow the last item. -/
def readItems? (depth : Nat) : (fuel : Nat) → List Char → Option (List Value × List Char)
  | 0, _ => none
  | fuel + 1, cs => do
    match ← skipGaps? false cs with
    | ']' :: rest => return ([], rest)
    | cs =>
      let (item, rest) ← readValue? depth fuel cs
      match ← skipGaps? false rest with
      | ']' :: rest => return ([item], rest)
      | ',' :: rest =>
        let (items, rest) ← readItems? depth fuel rest
        return (item :: items, rest)
      | _ => none

/-- The entries of a table behind those it has already, and its end. No comma follows the last. -/
def readEntries? (depth : Nat) :
    (fuel : Nat) → List (String × Value) → List Char → Option (List (String × Value) × List Char)
  | 0, _, _ => none
  | fuel + 1, entries, cs => do
    let (path, rest) ← readPath? cs
    let rest ← skipChar? '=' rest
    let (value, rest) ← readValue? depth fuel (skipBlanks rest)
    let entries ← insert? entries path value
    match skipBlanks rest with
    | '\x7d' :: rest => return (entries, rest)
    | ',' :: rest => readEntries? depth fuel entries rest
    | _ => none

end

end MacroAtlas.Toml
