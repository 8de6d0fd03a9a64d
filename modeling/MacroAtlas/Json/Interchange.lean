import MacroAtlas.Json.Reading
import MacroAtlas.Store.Fault

/-!
# Values that are exchanged as JSON

A structure is read from an object with all its fields, in any order, or from an array of them.
Values are taken in text order and checked as soon as they are complete, so a faulty value is
reported even if the text behind it is no JSON.
-/

namespace MacroAtlas.Json

/-- Why a text holds no value of the kind asked for. -/
inductive ReadFault where
  /-- The text is not JSON or has another shape. -/
  | malformed
  /-- The bounds of a span are in the wrong order. -/
  | inverted (bounds : InvertedBounds)
  /-- A text is no fingerprint. -/
  | invalidFingerprint (text : String)
  /-- A text names no expansion file. -/
  | invalidName (text : String)
  deriving DecidableEq, Repr

/-- The report of a fault, if it is one of the value and not of the JSON. -/
def ReadFault.message? : ReadFault → Option String
  | .malformed => none
  | .inverted bounds => some bounds.message
  | .invalidFingerprint text => some s!"invalid fingerprint {Text.quoted text}"
  | .invalidName text => some (StoreFault.invalidName text).message

namespace Reading

/-- A natural number of at most the given size. -/
def natural (limit : Nat) : Reading → Except ReadFault Nat
  | .number (some n) => if n ≤ limit then .ok n else .error .malformed
  | _ => .error .malformed

/-- A 32-bit offset. -/
def offset (r : Reading) : Except ReadFault UInt32 := (r.natural (UInt32.size - 1)).map (·.toUInt32)

/-- A truth value. -/
def truth : Reading → Except ReadFault Bool
  | .bool value => .ok value
  | _ => .error .malformed

/-- A text. -/
def string : Reading → Except ReadFault String
  | .text (some content) => .ok content
  | _ => .error .malformed

/-- Takes a value for a field that must not have one yet. -/
def once {α : Type} (field : Option α) (value : Except ReadFault α) : Except ReadFault (Option α) :=
  match field with
  | some _ => .error .malformed
  | none => value.map some

/-- The value of a field that must have one. -/
def required {α : Type} : Option α → Except ReadFault α
  | some value => .ok value
  | none => .error .malformed

/-- The bounds of a span among the members of an object. -/
def bounds (start stop : Option UInt32) :
    List (Option String × Reading) → Except ReadFault (UInt32 × UInt32)
  | [] => do return (← required start, ← required stop)
  | (some "start", value) :: rest => do bounds (← once start value.offset) stop rest
  | (some "end", value) :: rest => do bounds start (← once stop value.offset) rest
  | (some _, value) :: rest => if value.isWhole then bounds start stop rest else .error .malformed
  | (none, _) :: _ => .error .malformed

/-- A span with its bounds in order. -/
def span (r : Reading) : Except ReadFault Span := do
  let (start, stop) ← match r with
    | .array [start, stop] => do pure (← start.offset, ← stop.offset)
    | .object members => bounds none none members
    | _ => .error .malformed
  (Span.ofBounds start stop).mapError .inverted

/-- The fields of a link among the members of an object. -/
def linkFields (target source : Option Span) (literal : Option Bool) :
    List (Option String × Reading) → Except ReadFault Link
  | [] => do return ⟨← required target, ← required source, ← required literal⟩
  | (some "target", value) :: rest => do linkFields (← once target value.span) source literal rest
  | (some "source", value) :: rest => do linkFields target (← once source value.span) literal rest
  | (some "literal", value) :: rest => do linkFields target source (← once literal value.truth) rest
  | (some _, value) :: rest =>
    if value.isWhole then linkFields target source literal rest else .error .malformed
  | (none, _) :: _ => .error .malformed

/-- A link. -/
def link : Reading → Except ReadFault Link
  | .array [] => .error .malformed
  | .array (target :: rest) => do
    let target ← target.span
    match rest with
    | [] => .error .malformed
    | source :: rest =>
      let source ← source.span
      match rest with
      | [literal] => return ⟨target, source, ← literal.truth⟩
      | _ => .error .malformed
  | .object members => linkFields none none none members
  | _ => .error .malformed

/-- A digest: an array of its bytes. -/
def digest : Reading → Except ReadFault Digest
  | .array items => do
    let bytes ← items.mapM fun item => (item.natural (UInt8.size - 1)).map (·.toUInt8)
    match Digest.ofBytes? bytes with
    | some d => return d
    | none => .error .malformed
  | _ => .error .malformed

/-- A fingerprint: the text of its digits. -/
def fingerprint (r : Reading) : Except ReadFault Fingerprint := do
  let text ← r.string
  match Fingerprint.ofText? text with
  | some f => return f
  | none => .error (.invalidFingerprint text)

/-- The name of an expansion file. -/
def fileName (r : Reading) : Except ReadFault FileName := do
  let text ← r.string
  match FileName.ofText? text with
  | some name => return name
  | none => .error (.invalidName text)

end Reading

/-- The value that a whole text holds. -/
def read {α : Type} (value : Reading → Except ReadFault α) (text : String) :
    Except ReadFault α := do
  let (reading, more) := Reading.ofText text
  let result ← value reading
  if more then .error .malformed else return result

end MacroAtlas.Json
