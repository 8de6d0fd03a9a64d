import MacroAtlas.Search
import MacroAtlas.Text.Unshown

/-!
# Quoted text

Reports show a doubtful text in double quotes. The quote and the backslash get a backslash, a zero
byte, a tab and the line ends have short names, and any other character that would not show is
written as its code point.
-/

namespace MacroAtlas.Text

/-- The character shows as itself. -/
def shows (c : Char) : Bool :=
  let code := c.toNat
  if code < 0x80 then 0x20 ≤ code && code < 0x7f
  else match unshownRanges[partitionPoint unshownRanges fun range => range.2 < code]? with
    | some range => code < range.1
    | none => true

/-- One character of a quoted text. -/
def quotedChar (c : Char) : List Char :=
  if c = '\x00' then ['\\', '0']
  else if c = '\t' then ['\\', 't']
  else if c = '\r' then ['\\', 'r']
  else if c = '\n' then ['\\', 'n']
  else if c = '\\' ∨ c = '"' then ['\\', c]
  else if shows c then [c]
  else ['\\', 'u', '{'] ++ Nat.toDigits 16 c.toNat ++ ['}']

/-- A text in double quotes. -/
def quoted (text : String) : String :=
  String.ofList ('"' :: text.toList.flatMap quotedChar ++ ['"'])

end MacroAtlas.Text
