import MacroAtlas.Search
import MacroAtlas.Span

/-!
# Lines and columns

A `LineIndex` finds the line and column of a byte offset. Lines end at line feeds alone; both
numbers start at one, and a column counts characters. The index keeps the byte offset of each line
and the characters from there on.
-/

namespace MacroAtlas

/-- A line and a column, both counted from one. -/
structure Position where
  /-- The number of the line. -/
  line : Nat
  /-- The number of the column, in characters. -/
  column : Nat
  deriving DecidableEq, Repr

/-- The position as it stands in reports: `3:14`. -/
def Position.text (p : Position) : String := s!"{p.line}:{p.column}"

/-- The place where a line starts. -/
structure LineStart where
  /-- The byte offset of the line. -/
  offset : Nat
  /-- The characters of the text from there on. -/
  rest : List Char
  deriving DecidableEq, Repr

/-- The starts of the lines of a text. -/
structure LineIndex where
  /-- The starts, in the order of the lines. -/
  starts : Array LineStart
  deriving DecidableEq, Repr

namespace LineIndex

/-- The starts of the lines that begin after the given characters, of which the first is at
`offset`. -/
def startsFrom (offset : Nat) : List Char → List LineStart
  | [] => []
  | c :: rest =>
    let next := offset + c.utf8Size
    if c = '\n' then ⟨next, rest⟩ :: startsFrom next rest else startsFrom next rest

/-- The index of a text. -/
def ofText (text : String) : LineIndex :=
  ⟨(⟨0, text.toList⟩ :: startsFrom 0 text.toList).toArray⟩

/-- The number of lines; a text without characters has one. -/
def lineCount (index : LineIndex) : Nat := index.starts.size

/-- The number of characters whose encodings fill exactly `bytes` bytes at the front of a list. -/
def charsIn? : (bytes : Nat) → List Char → Option Nat
  | 0, _ => some 0
  | _ + 1, [] => none
  | bytes + 1, c :: rest =>
    if c.utf8Size ≤ bytes + 1 then (charsIn? (bytes + 1 - c.utf8Size) rest).map (· + 1) else none
  termination_by structural _ cs => cs

/-- The position of a byte offset. -/
def position? (index : LineIndex) (offset : UInt32) : Option Position := do
  let line := partitionPoint index.starts fun start => start.offset ≤ offset.toNat
  let start ← index.starts[line - 1]?
  let chars ← charsIn? (offset.toNat - start.offset) start.rest
  return ⟨line, chars + 1⟩

/-- The positions of both bounds of a span. -/
def positions? (index : LineIndex) (span : Span) : Option (Position × Position) := do
  return (← index.position? span.start, ← index.position? span.stop)

end LineIndex

/-- Two positions as they stand in reports: `3:14-4:1`. -/
def Position.rangeText (first last : Position) : String := s!"{first.text}-{last.text}"

end MacroAtlas
