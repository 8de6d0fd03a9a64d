import MacroAtlas.Toml.Text

/-!
# Numbers, dates and times of TOML

An integer has 64 bits with a sign. Floats, dates and times occur in no setting, so only their form
is checked: a date exists in the calendar, a time on the clock, and a positive float is finite.
-/

namespace MacroAtlas.Toml

/-- A run of digits with single underscores between digits. -/
def readRun (isDigit : Char → Bool) : List Char → List Char × List Char
  | [] => ([], [])
  | '_' :: d :: rest =>
    if isDigit d then let (ds, rest) := readRun isDigit rest; (d :: ds, rest)
    else ([], '_' :: d :: rest)
  | c :: rest =>
    if isDigit c then let (ds, rest) := readRun isDigit rest; (c :: ds, rest)
    else ([], c :: rest)

/-- A run that starts with a digit. -/
def readDigits? (isDigit : Char → Bool) (cs : List Char) : Option (List Char × List Char) :=
  if cs.head?.any isDigit then some (readRun isDigit cs) else none

/-- The number that digits spell to a base. -/
def numberOf (base : Nat) (digits : List Char) : Nat :=
  digits.foldl (fun n c => base * n + (Hex.value? c.toLower).getD 0) 0

/-- A sign, and whether it is a minus. -/
def readSign : List Char → Bool × List Char
  | '-' :: rest => (true, rest)
  | '+' :: rest => (false, rest)
  | rest => (false, rest)

/-- The digits of a decimal number: a zero alone, or a run that starts with none. -/
def readDecimal? (cs : List Char) : Option (List Char × List Char) :=
  match cs with
  | '0' :: rest => some (['0'], rest)
  | _ => readDigits? Char.isDigit cs

/-- The greatest integer. -/
def integerMax : Nat := 0x7fff_ffff_ffff_ffff

/-- An integer to a base other than ten, behind the mark of the base. -/
def readBased? (base : Nat) (cs : List Char) : Option (Int × List Char) := do
  let inBase (c : Char) : Bool := (Hex.value? c.toLower).any (· < base)
  let (digits, rest) ← readDigits? inBase cs
  let n := numberOf base digits
  if n ≤ integerMax then some (n, rest) else none

/-- An integer. -/
def readInteger? : List Char → Option (Int × List Char)
  | '0' :: 'x' :: rest => readBased? 16 rest
  | '0' :: 'o' :: rest => readBased? 8 rest
  | '0' :: 'b' :: rest => readBased? 2 rest
  | cs => do
    let (negative, cs) := readSign cs
    let (digits, rest) ← readDecimal? cs
    let n := numberOf 10 digits
    if negative then if n ≤ integerMax + 1 then some (-(n : Int), rest) else none
    else if n ≤ integerMax then some ((n : Int), rest) else none

/-- The least number that rounds to infinity in the 64-bit binary format: 54 binary digits of one,
with 970 of zero behind them. -/
def overflowBound : Nat := 0x3f_ffff_ffff_ffff <<< 970

/-- The number with the given digits, times a power of ten, rounds to infinity. -/
def isInfinite (digits : List Char) (exponent : Int) : Bool :=
  let significant := digits.dropWhile (· = '0')
  let magnitude : Int := significant.length + exponent
  if significant.isEmpty || magnitude < 300 then false
  else if 320 < magnitude then true
  else
    let n := numberOf 10 significant
    if 0 ≤ exponent then overflowBound ≤ n * Nat.pow 10 exponent.toNat
    else overflowBound * Nat.pow 10 (-exponent).toNat ≤ n

/-- An exponent; zero where there is none. -/
def readExponent? : List Char → Option (Int × List Char)
  | c :: rest =>
    if c = 'e' ∨ c = 'E' then do
      let (negative, rest) := readSign rest
      let (digits, rest) ← readDigits? Char.isDigit rest
      let n := numberOf 10 digits
      return (if negative then -(n : Int) else n, rest)
    else some (0, c :: rest)
  | [] => some (0, [])

/-- The characters behind a float. -/
def skipFloat? (cs : List Char) : Option (List Char) := do
  let (negative, unsigned) := readSign cs
  match unsigned with
  | 'i' :: 'n' :: 'f' :: rest => some rest
  | 'n' :: 'a' :: 'n' :: rest => some rest
  | _ =>
    let (whole, rest) ← readDecimal? unsigned
    let (fraction, rest) ← match rest with
      | '.' :: rest => readDigits? Char.isDigit rest
      | 'e' :: _ | 'E' :: _ => some ([], rest)
      | _ => none
    let (exponent, rest) ← readExponent? rest
    if !negative && isInfinite (whole ++ fraction) (exponent - fraction.length) then none
    else some rest

/-- A number of exactly the given count of digits. -/
def readFixed? (count : Nat) (cs : List Char) : Option (Nat × List Char) :=
  let digits := cs.take count
  if digits.length = count ∧ digits.all Char.isDigit then some (numberOf 10 digits, cs.drop count)
  else none

/-- A number of two digits between two bounds. -/
def readPart? (low high : Nat) (cs : List Char) : Option (Nat × List Char) := do
  let (n, rest) ← readFixed? 2 cs
  if low ≤ n ∧ n ≤ high then some (n, rest) else none

/-- The characters behind a given one. -/
def skipChar? (c : Char) : List Char → Option (List Char)
  | d :: rest => if d = c then some rest else none
  | [] => none

/-- The number of days in a month. -/
def daysIn (year month : Nat) : Nat :=
  if month = 2 then if year % 4 = 0 ∧ (year % 100 ≠ 0 ∨ year % 400 = 0) then 29 else 28
  else if month = 4 ∨ month = 6 ∨ month = 9 ∨ month = 11 then 30
  else 31

/-- The characters behind a date. -/
def skipDate? (cs : List Char) : Option (List Char) := do
  let (year, rest) ← readFixed? 4 cs
  let (month, rest) ← readPart? 1 12 (← skipChar? '-' rest)
  let (_, rest) ← readPart? 1 (daysIn year month) (← skipChar? '-' rest)
  return rest

/-- The characters behind a time of day. -/
def skipTime? (cs : List Char) : Option (List Char) := do
  let (_, rest) ← readPart? 0 23 cs
  let (_, rest) ← readPart? 0 59 (← skipChar? ':' rest)
  let (_, rest) ← readPart? 0 60 (← skipChar? ':' rest)
  match rest with
  | '.' :: d :: more => return if d.isDigit then more.dropWhile Char.isDigit else rest
  | _ => return rest

/-- The characters behind the offset of a time zone. -/
def skipOffset? : List Char → Option (List Char)
  | [] => none
  | c :: rest =>
    if c = 'Z' ∨ c = 'z' then some rest
    else if c = '+' ∨ c = '-' then do
      let (_, rest) ← readPart? 0 23 rest
      let (_, rest) ← readPart? 0 59 (← skipChar? ':' rest)
      return rest
    else none

/-- The characters behind a time with an optional offset, which follows a date. -/
def skipClock? : List Char → Option (List Char)
  | [] => none
  | c :: rest =>
    if c = 'T' ∨ c = 't' ∨ c = ' ' then do
      let rest ← skipTime? rest
      return (skipOffset? rest).getD rest
    else none

/-- The characters behind a date, a time or both. -/
def skipMoment? (cs : List Char) : Option (List Char) :=
  match skipDate? cs with
  | some rest => some ((skipClock? rest).getD rest)
  | none => skipTime? cs

end MacroAtlas.Toml
