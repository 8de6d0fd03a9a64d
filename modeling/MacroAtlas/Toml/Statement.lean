import MacroAtlas.Toml.Value

/-!
# Statements of TOML

A text is a list of statements, one a line: a header opens a table or adds one to an array of
tables, and an assignment gives a value to a path in the open table.
-/

namespace MacroAtlas.Toml

/-- A statement. -/
inductive Statement where
  /-- Opens a table. -/
  | table (path : List String)
  /-- Adds a table to an array. -/
  | tableInArray (path : List String)
  /-- Gives a value to a path. -/
  | assignment (path : List String) (value : Value)

/-- One statement with the rest of its line. -/
def readStatement? (cs : List Char) : Option (Statement × List Char) := do
  match cs with
  | '[' :: '[' :: rest =>
    let (path, rest) ← readPath? rest
    let rest ← skipChar? ']' (← skipChar? ']' rest)
    return (.tableInArray path, ← finishLine? rest)
  | '[' :: rest =>
    let (path, rest) ← readPath? rest
    return (.table path, ← finishLine? (← skipChar? ']' rest))
  | _ =>
    let (path, rest) ← readPath? cs
    let rest := skipBlanks (← skipChar? '=' rest)
    let (value, rest) ← readValue? 0 (rest.length + 1) rest
    return (.assignment path value, ← finishLine? rest)

/-- All statements. -/
def readStatements? : (fuel : Nat) → List Char → Option (List Statement)
  | 0, _ => none
  | fuel + 1, cs =>
    match skipBlanks cs with
    | [] => some []
    | cs =>
      match finishLine? cs with
      | some rest => readStatements? fuel rest
      | none => do
        let (statement, rest) ← readStatement? cs
        return statement :: (← readStatements? fuel rest)

/-- The mark of byte order. -/
def byteOrderMark : Char := '\ufeff'

/-- The statements of a text, or `none` when it breaks the grammar. -/
def statements? (text : String) : Option (List Statement) :=
  let cs := match text.toList with
    | c :: rest => if c = byteOrderMark then rest else c :: rest
    | [] => []
  readStatements? (cs.length + 1) cs

end MacroAtlas.Toml
