import MacroAtlas.Text.Hex

/-!
# Blanks, comments and texts of TOML

Readers take characters and return what they read with the characters behind it, or `none` where the
grammar is broken. A text is quoted or literal, on one line or on several; several may start with a
line end that does not count.
-/

namespace MacroAtlas.Toml

/-- A space or a tab. -/
def isBlank (c : Char) : Bool := c = ' ' || c = '\t'

/-- A character that may stand in a comment or in a text: anything but controls, the tab
excepted. -/
def isPlain (c : Char) : Bool := c = '\t' || (0x20 ≤ c.toNat && c.toNat ≠ 0x7f)

/-- The characters behind spaces and tabs. -/
def skipBlanks (cs : List Char) : List Char := cs.dropWhile isBlank

/-- The characters behind a line end. -/
def skipLineEnd? : List Char → Option (List Char)
  | '\n' :: rest => some rest
  | '\r' :: '\n' :: rest => some rest
  | _ => none

/-- The characters behind the rest of a line that holds no more than a comment. -/
def finishLine? (cs : List Char) : Option (List Char) :=
  let rest := match skipBlanks cs with
    | '#' :: comment => comment.dropWhile isPlain
    | rest => rest
  if rest.isEmpty then some [] else skipLineEnd? rest

/-- The characters behind blanks, line ends and comments that each end with their line. -/
def skipGaps? (inComment : Bool) : List Char → Option (List Char)
  | [] => if inComment then none else some []
  | '\n' :: rest => skipGaps? false rest
  | '\r' :: '\n' :: rest => skipGaps? false rest
  | c :: rest =>
    if inComment then if isPlain c then skipGaps? true rest else none
    else if isBlank c then skipGaps? false rest
    else if c = '#' then skipGaps? true rest
    else some (c :: rest)

/-- The character with a code that is spelled in hexadecimal digits of either case. -/
def charOfDigits? (digits : List Char) : Option Char := do
  let values ← digits.mapM fun c => Hex.value? c.toLower
  let code := values.foldl (16 * · + ·) 0
  if code.isValidChar then some (Char.ofNat code) else none

/-- The character that a letter behind a backslash stands for. -/
def escaped? (c : Char) : Option Char :=
  if c = '"' || c = '\\' then some c
  else if c = 'b' then some '\x08'
  else if c = 't' then some '\t'
  else if c = 'n' then some '\n'
  else if c = 'f' then some '\x0c'
  else if c = 'r' then some '\r'
  else none

/-- The character that is spelled behind a backslash. -/
def readEscape? : List Char → Option (Char × List Char)
  | [] => none
  | c :: rest =>
    let width := if c = 'u' then 4 else if c = 'U' then 8 else 0
    let digits := rest.take width
    if width = 0 then (escaped? c).map (·, rest)
    else if digits.length < width then none
    else (charOfDigits? digits).map (·, rest.drop width)

/-- The content of a quoted text on one line, behind the opening quote. -/
def readQuoted? : (fuel : Nat) → List Char → Option (List Char × List Char)
  | 0, _ => none
  | _, [] => none
  | _ + 1, '"' :: rest => some ([], rest)
  | fuel + 1, '\\' :: rest => do
    let (c, rest) ← readEscape? rest
    let (cs, rest) ← readQuoted? fuel rest
    return (c :: cs, rest)
  | fuel + 1, c :: rest =>
    if isPlain c then (readQuoted? fuel rest).map fun (cs, rest) => (c :: cs, rest) else none

/-- The content of a text on several lines. In a quoted one a backslash at the end of a line takes
the gap away. -/
def readLines? (quote : Char) : (fuel : Nat) → List Char → Option (List Char × List Char)
  | 0, _ => none
  | _, [] => none
  | fuel + 1, c :: rest =>
    let more (c : Char) (rest : List Char) : Option (List Char × List Char) :=
      (readLines? quote fuel rest).map fun (cs, rest) => (c :: cs, rest)
    if c = quote then
      let quotes := min 5 ((c :: rest).takeWhile (· = quote)).length
      if 3 ≤ quotes then some (List.replicate (quotes - 3) quote, (c :: rest).drop quotes)
      else more c rest
    else match skipLineEnd? (c :: rest) with
      | some rest => more '\n' rest
      | none =>
        if c = '\\' ∧ quote = '"' then
          match skipLineEnd? (skipBlanks rest) with
          | some next => do readLines? quote fuel (← skipGap? next)
          | none => do
            let (c, rest) ← readEscape? rest
            more c rest
        else if isPlain c then more c rest
        else none
where
  /-- The characters behind blanks and line ends. -/
  skipGap? : List Char → Option (List Char)
    | '\n' :: rest => skipGap? rest
    | '\r' :: '\n' :: rest => skipGap? rest
    | c :: rest => if isBlank c then skipGap? rest else some (c :: rest)
    | [] => some []

/-- A text on one line. -/
def readLineText? : List Char → Option (String × List Char)
  | '"' :: rest =>
    (readQuoted? (rest.length + 1) rest).map fun (cs, rest) => (String.ofList cs, rest)
  | '\'' :: rest =>
    match rest.span fun c => isPlain c && c ≠ '\'' with
    | (cs, '\'' :: rest) => some (String.ofList cs, rest)
    | _ => none
  | _ => none

/-- A text of any kind. -/
def readText? (cs : List Char) : Option (String × List Char) :=
  match cs with
  | q :: q' :: q'' :: rest =>
    if (q = '"' ∨ q = '\'') ∧ q' = q ∧ q'' = q then
      let body := (skipLineEnd? rest).getD rest
      (readLines? q (body.length + 1) body).map fun (cs, rest) => (String.ofList cs, rest)
    else readLineText? cs
  | _ => readLineText? cs

end MacroAtlas.Toml
