/-!
# JSON for reading

A `Document` is printed over several lines: each item and each member on a line of its own, two
spaces deeper than the bracket that opens it. An array or an object without content is just its
brackets.
-/

namespace MacroAtlas.Json

/-- A value to print. -/
inductive Document where
  /-- Nothing. -/
  | null
  /-- A natural number. -/
  | natural (n : Nat)
  /-- A text. -/
  | text (content : String)
  /-- An array. -/
  | array (items : List Document)
  /-- An object, with its members in the order in which they are printed. -/
  | object (members : List (String × Document))

/-- One character of a text in quotes. -/
def printedChar (c : Char) : List Char :=
  if c = '"' ∨ c = '\\' then ['\\', c]
  else if c = '\x08' then ['\\', 'b']
  else if c = '\t' then ['\\', 't']
  else if c = '\n' then ['\\', 'n']
  else if c = '\x0c' then ['\\', 'f']
  else if c = '\r' then ['\\', 'r']
  else if c.toNat < 0x20 then
    ['\\', 'u', '0', '0', Nat.digitChar (c.toNat / 16), Nat.digitChar (c.toNat % 16)]
  else [c]

/-- A text in quotes. -/
def printedText (content : String) : String :=
  String.ofList ('"' :: content.toList.flatMap printedChar ++ ['"'])

/-- A line end and the blanks in front of the next line. -/
def lineAt (depth : Nat) : String := "\n" ++ String.ofList (List.replicate (2 * depth) ' ')

mutual

/-- A value that starts at a depth. -/
def printAt (depth : Nat) : Document → String
  | .null => "null"
  | .natural n => toString n
  | .text content => printedText content
  | .array [] => "[]"
  | .array items => "[" ++ printItems (depth + 1) items ++ lineAt depth ++ "]"
  | .object [] => "\x7b\x7d"
  | .object members => "\x7b" ++ printMembers (depth + 1) members ++ lineAt depth ++ "\x7d"

/-- The items of an array. -/
def printItems (depth : Nat) : List Document → String
  | [] => ""
  | [item] => lineAt depth ++ printAt depth item
  | item :: rest => lineAt depth ++ printAt depth item ++ "," ++ printItems depth rest

/-- The members of an object. -/
def printMembers (depth : Nat) : List (String × Document) → String
  | [] => ""
  | [(key, value)] => lineAt depth ++ printedText key ++ ": " ++ printAt depth value
  | (key, value) :: rest =>
    lineAt depth ++ printedText key ++ ": " ++ printAt depth value ++ "," ++ printMembers depth rest

end

/-- The text of a document. -/
def Document.pretty (d : Document) : String := printAt 0 d

end MacroAtlas.Json
