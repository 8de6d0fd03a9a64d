import MacroAtlas.Text.Hex

/-!
# Tokens of JSON

A text is cut into tokens by a machine that takes one character at a time. Where the text stops
being JSON it gives one last token that says so. Half of a surrogate pair is good where the text is
passed over and has no content where it is wanted.
-/

namespace MacroAtlas.Json

/-- The two kinds of brackets. -/
inductive Bracket where
  /-- Around the items of an array. -/
  | square
  /-- Around the members of an object. -/
  | curly
  deriving DecidableEq, Repr

/-- A token. -/
inductive Token where
  /-- An opening bracket. -/
  | opening (bracket : Bracket)
  /-- A closing bracket. -/
  | closing (bracket : Bracket)
  /-- What separates items and members. -/
  | comma
  /-- What separates a key from its value. -/
  | colon
  /-- The word `null`. -/
  | null
  /-- One of the words `true` and `false`. -/
  | bool (value : Bool)
  /-- A number, with its value if it is a plain natural number. -/
  | number (natural : Option Nat)
  /-- A text, with its content unless that would have half of a surrogate pair. -/
  | text (content : Option String)
  /-- From here on the text is not JSON. -/
  | broken
  deriving DecidableEq, Repr

/-- The characters that may stand between tokens. -/
def isBlank (c : Char) : Bool := c = ' ' || c = '\t' || c = '\n' || c = '\r'

/-- The characters of which numbers consist. -/
def isNumeric (c : Char) : Bool :=
  c.isDigit || c = '-' || c = '+' || c = '.' || c = 'e' || c = 'E'

/-- The number that decimal digits spell. -/
def naturalOfDigits (digits : List Char) : Nat :=
  digits.foldl (fun n c => 10 * n + (c.toNat - '0'.toNat)) 0

/-- Nothing, or an exponent with at least one digit. -/
def isExponent : List Char → Bool
  | [] => true
  | c :: rest =>
    let digits := match rest with
      | '+' :: digits => digits
      | '-' :: digits => digits
      | digits => digits
    (c = 'e' || c = 'E') && !digits.isEmpty && digits.all Char.isDigit

/-- The token of a lexeme made of numeric characters. -/
def numberToken (lexeme : List Char) : Token :=
  let negative := lexeme.head? = some '-'
  let unsigned := if negative then lexeme.tail else lexeme
  let (whole, rest) := unsigned.span Char.isDigit
  if whole.isEmpty || (whole.head? = some '0' && whole.length ≠ 1) then .broken
  else match rest with
    | [] => .number (if negative then none else some (naturalOfDigits whole))
    | '.' :: rest =>
      let (fraction, rest) := rest.span Char.isDigit
      if !fraction.isEmpty && isExponent rest then .number none else .broken
    | rest => if isExponent rest then .number none else .broken

/-- The token of a lexeme made of letters. -/
def wordToken (lexeme : List Char) : Token :=
  if lexeme = "null".toList then .null
  else if lexeme = "true".toList then .bool true
  else if lexeme = "false".toList then .bool false
  else .broken

/-- A unit is the first half of a surrogate pair. -/
def isHighSurrogate (unit : Nat) : Bool := 0xd800 ≤ unit && unit < 0xdc00

/-- A unit is the second half of a surrogate pair. -/
def isLowSurrogate (unit : Nat) : Bool := 0xdc00 ≤ unit && unit < 0xe000

/-- The characters that units spell: a unit is a code point or half of a surrogate pair. -/
def charsOfUnits? : List Nat → Option (List Char)
  | [] => some []
  | high :: low :: rest =>
    if isHighSurrogate high then
      if isLowSurrogate low then
        (charsOfUnits? rest).map
          (Char.ofNat (0x10000 + 0x400 * (high - 0xd800) + (low - 0xdc00)) :: ·)
      else none
    else if isLowSurrogate high then none
    else (charsOfUnits? (low :: rest)).map (Char.ofNat high :: ·)
  | [unit] =>
    if isHighSurrogate unit || isLowSurrogate unit then none else some [Char.ofNat unit]

/-- The unit that a letter behind a backslash stands for. -/
def escapedUnit? (c : Char) : Option Nat :=
  if c = '"' || c = '\\' || c = '/' then some c.toNat
  else if c = 'b' then some 8
  else if c = 't' then some 9
  else if c = 'n' then some 10
  else if c = 'f' then some 12
  else if c = 'r' then some 13
  else none

/-- Where the machine stands. What was read of the current token is kept backwards. -/
inductive LexState where
  /-- Between tokens. -/
  | between
  /-- Inside a text. -/
  | text (units : List Nat)
  /-- Behind a backslash. -/
  | escape (units : List Nat)
  /-- Among the four digits of a unit. -/
  | code (units : List Nat) (digits value : Nat)
  /-- Inside a number. -/
  | number (lexeme : List Char)
  /-- Inside a word. -/
  | word (lexeme : List Char)
  /-- Past the end of what is JSON. -/
  | broken
  deriving DecidableEq, Repr

namespace LexState

/-- A character that starts a token, or is one. -/
def start (c : Char) : List Token × LexState :=
  if isBlank c then ([], .between)
  else if c = '[' then ([.opening .square], .between)
  else if c = ']' then ([.closing .square], .between)
  else if c = '\x7b' then ([.opening .curly], .between)
  else if c = '\x7d' then ([.closing .curly], .between)
  else if c = ',' then ([.comma], .between)
  else if c = ':' then ([.colon], .between)
  else if c = '"' then ([], .text [])
  else if c.isDigit || c = '-' then ([], .number [c])
  else if c.isLower then ([], .word [c])
  else ([.broken], .broken)

/-- The tokens that end with a character, and where the machine stands behind it. -/
def step : LexState → Char → List Token × LexState
  | .between, c => start c
  | .text units, c =>
    if c = '"' then ([.text ((charsOfUnits? units.reverse).map String.ofList)], .between)
    else if c = '\\' then ([], .escape units)
    else if c.toNat < 0x20 then ([.broken], .broken)
    else ([], .text (c.toNat :: units))
  | .escape units, c =>
    match escapedUnit? c with
    | some unit => ([], .text (unit :: units))
    | none => if c = 'u' then ([], .code units 0 0) else ([.broken], .broken)
  | .code units digits value, c =>
    match Hex.value? c.toLower with
    | none => ([.broken], .broken)
    | some digit =>
      let value := 16 * value + digit
      if digits = 3 then ([], .text (value :: units)) else ([], .code units (digits + 1) value)
  | .number lexeme, c =>
    if isNumeric c then ([], .number (c :: lexeme))
    else
      let (tokens, after) := start c
      (numberToken lexeme.reverse :: tokens, after)
  | .word lexeme, c =>
    if c.isLower then ([], .word (c :: lexeme))
    else
      let (tokens, after) := start c
      (wordToken lexeme.reverse :: tokens, after)
  | .broken, _ => ([], .broken)

/-- The tokens that end with the text. -/
def finish : LexState → List Token
  | .between => []
  | .number lexeme => [numberToken lexeme.reverse]
  | .word lexeme => [wordToken lexeme.reverse]
  | .broken => []
  | .text _ | .escape _ | .code _ _ _ => [.broken]

end LexState

/-- The tokens of a text. -/
def tokens (text : String) : List Token :=
  let (found, last) := text.toList.foldl (fun (found, state) c =>
    let (more, next) := LexState.step state c
    (more.reverse ++ found, next)) (([], .between) : List Token × LexState)
  found.reverse ++ last.finish

end MacroAtlas.Json
