import MacroAtlas.Json.Token

/-!
# What is read of a JSON text

A `Reading` is the tree of values in a text, up to the place where the text stops being JSON. That
place is a leaf, so the fault that comes first in the text is the one that is met first.
-/

namespace MacroAtlas.Json

/-- A value as far as it can be read. -/
inductive Reading where
  /-- Nothing. -/
  | null
  /-- A truth value. -/
  | bool (value : Bool)
  /-- A number, with its value if it is a plain natural number. -/
  | number (natural : Option Nat)
  /-- A text, with its content unless that would have half of a surrogate pair. -/
  | text (content : Option String)
  /-- An array. -/
  | array (items : List Reading)
  /-- An object with its keys and values in text order. -/
  | object (members : List (Option String × Reading))
  /-- The text ends or is not JSON here. -/
  | broken

/-- A value that is not complete, with what was read of it backwards. -/
inductive Frame where
  /-- An array. -/
  | items (before : List Reading)
  /-- An object that has no open member. -/
  | members (before : List (Option String × Reading))
  /-- An object with a member whose value is due. -/
  | member (before : List (Option String × Reading)) (key : Option String)

/-- The frame closed behind one more value. -/
def Frame.closeWith (last : Reading) : Frame → Reading
  | .items before => .array (last :: before).reverse
  | .members before => .object ((none, last) :: before).reverse
  | .member before key => .object ((key, last) :: before).reverse

/-- What the next token may be. -/
inductive Stage where
  /-- A value, or right behind its opening bracket the end of an array. -/
  | value (first : Bool)
  /-- A key, or right behind its opening bracket the end of an object. -/
  | key (first : Bool)
  /-- The separator behind a key. -/
  | colon
  /-- The separator behind a value, or the end of what encloses it. -/
  | next
  /-- Nothing: the value is complete. -/
  | done (value : Reading)

/-- The frames and the stage behind a complete value. -/
def complete (value : Reading) : List Frame → List Frame × Stage
  | [] => ([], .done value)
  | .items before :: outer => (.items (value :: before) :: outer, .next)
  | .members before :: outer => (.members ((none, value) :: before) :: outer, .next)
  | .member before key :: outer => (.members ((key, value) :: before) :: outer, .next)

/-- The value that a token is by itself. -/
def Token.scalar? : Token → Option Reading
  | .null => some .null
  | .bool value => some (.bool value)
  | .number natural => some (.number natural)
  | .text content => some (.text content)
  | _ => none

/-- The frames and the stage behind a token, or `none` when the token is out of place. -/
def advance (frames : List Frame) (stage : Stage) (token : Token) : Option (List Frame × Stage) :=
  match stage, token, frames with
  | .value _, .opening .square, frames => some (.items [] :: frames, .value true)
  | .value _, .opening .curly, frames => some (.members [] :: frames, .key true)
  | .value true, .closing .square, .items before :: outer =>
    some (complete (.array before.reverse) outer)
  | .value _, token, frames => token.scalar?.map fun value => complete value frames
  | .key true, .closing .curly, .members before :: outer =>
    some (complete (.object before.reverse) outer)
  | .key _, .text key, .members before :: outer => some (.member before key :: outer, .colon)
  | .colon, .colon, frames => some (frames, .value false)
  | .next, .comma, .items before :: outer => some (.items before :: outer, .value false)
  | .next, .comma, .members before :: outer => some (.members before :: outer, .key false)
  | .next, .closing .square, .items before :: outer =>
    some (complete (.array before.reverse) outer)
  | .next, .closing .curly, .members before :: outer =>
    some (complete (.object before.reverse) outer)
  | _, _, _ => none

/-- The value whose tokens come next, with the tokens behind it. -/
def readFrom (frames : List Frame) (stage : Stage) : List Token → Reading × List Token
  | [] =>
    match stage with
    | .done value => (value, [])
    | _ => (frames.foldl (fun inner frame => frame.closeWith inner) .broken, [])
  | token :: rest =>
    match stage with
    | .done value => (value, token :: rest)
    | _ =>
      match advance frames stage token with
      | some (frames, stage) => readFrom frames stage rest
      | none => (frames.foldl (fun inner frame => frame.closeWith inner) .broken, rest)

/-- What is read of a text, and whether anything stands behind the value. -/
def Reading.ofText (text : String) : Reading × Bool :=
  let (value, rest) := readFrom [] (.value false) (tokens text)
  (value, !rest.isEmpty)

mutual

/-- The value is complete. -/
def Reading.isWhole : Reading → Bool
  | .array items => allWhole items
  | .object members => allMembersWhole members
  | .broken => false
  | _ => true

/-- All items are complete. -/
def allWhole : List Reading → Bool
  | [] => true
  | item :: rest => item.isWhole && allWhole rest

/-- All members are complete. -/
def allMembersWhole : List (Option String × Reading) → Bool
  | [] => true
  | (_, value) :: rest => value.isWhole && allMembersWhole rest

end

end MacroAtlas.Json
