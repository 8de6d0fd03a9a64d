import MacroAtlas.Payload.Fault
import MacroAtlas.SpanMap.Basic

/-!
# Payloads

The payload of a map is the number of its links followed by one group per link: target start and
length, source start and length, and a flag byte. Reading accepts every width of a number and
demands that nothing is left over and that the links are in order.
-/

namespace MacroAtlas

/-- A link as it is stored: starts and lengths in place of bounds. -/
structure StoredLink where
  /-- Where the target starts. -/
  targetStart : UInt32
  /-- How long the target is. -/
  targetLength : UInt32
  /-- Where the source starts. -/
  sourceStart : UInt32
  /-- How long the source is. -/
  sourceLength : UInt32
  /-- The lowest bit marks a literal link; no other bit is in use. -/
  flags : UInt8
  deriving DecidableEq, Repr

namespace StoredLink

/-- The stored form of a link. -/
def ofLink (l : Link) : StoredLink where
  targetStart := l.target.start
  targetLength := l.target.length
  sourceStart := l.source.start
  sourceLength := l.source.length
  flags := if l.literal then 1 else 0

/-- The link that is stored. -/
def toLink (s : StoredLink) : Except PayloadFault Link :=
  if s.flags ≠ 0 ∧ s.flags ≠ 1 then .error (.unknownFlags s.flags)
  else match Span.ofLength? s.targetStart s.targetLength with
    | none => .error .targetOverflow
    | some target => match Span.ofLength? s.sourceStart s.sourceLength with
      | none => .error .sourceOverflow
      | some source => .ok ⟨target, source, s.flags = 1⟩

/-- The bytes of a stored link. -/
def write (s : StoredLink) : Bytes :=
  Varint.write s.targetStart.toNat ++ Varint.write s.targetLength.toNat ++
    Varint.write s.sourceStart.toNat ++ Varint.write s.sourceLength.toNat ++ [s.flags]

end StoredLink

namespace Payload

/-- Reads exactly `count` bytes. -/
def readBytes (count : Nat) (bytes : Bytes) : Except PayloadFault (Bytes × Bytes) :=
  let taken := bytes.take count
  if taken.length < count then .error (.unexpectedEnd (count - taken.length))
  else .ok (taken, bytes.drop count)

/-- Reads one byte. -/
def readByte : Bytes → Except PayloadFault (UInt8 × Bytes)
  | [] => .error (.unexpectedEnd 1)
  | b :: rest => .ok (b, rest)

/-- Reads a number in any width that fits the quantity. -/
def readNumber (quantity : Varint.Quantity) (bytes : Bytes) :
    Except PayloadFault (Nat × Bytes) := do
  let (b, rest) ← readByte bytes
  match Varint.Lead.ofByte quantity b with
  | .value n => return (n, rest)
  | .wide width =>
    let (digits, rest) ← readBytes width rest
    return (digits.toNat, rest)
  | .misfit found => throw (.misfit quantity found)

/-- Reads an offset or a length. -/
def readOffset (bytes : Bytes) : Except PayloadFault (UInt32 × Bytes) := do
  let (n, rest) ← readNumber .offset bytes
  return (n.toUInt32, rest)

/-- Reads one stored link. -/
def readLink (bytes : Bytes) : Except PayloadFault (StoredLink × Bytes) := do
  let (targetStart, rest) ← readOffset bytes
  let (targetLength, rest) ← readOffset rest
  let (sourceStart, rest) ← readOffset rest
  let (sourceLength, rest) ← readOffset rest
  let (flags, rest) ← readByte rest
  return (⟨targetStart, targetLength, sourceStart, sourceLength, flags⟩, rest)

/-- Reads the given number of stored links. -/
def readLinks : Nat → Bytes → Except PayloadFault (List StoredLink × Bytes)
  | 0, bytes => return ([], bytes)
  | count + 1, bytes => do
    let (link, rest) ← readLink bytes
    let (links, rest) ← readLinks count rest
    return (link :: links, rest)

/-- Reads a count and that many stored links, and demands that no byte is left. -/
def readAll (bytes : Bytes) : Except PayloadFault (List StoredLink) := do
  let (count, rest) ← readNumber .count bytes
  let (links, rest) ← readLinks count rest
  if rest.isEmpty then return links
  else throw (.trailing rest.length links.length)

end Payload

namespace SpanMap

/-- The shortest payload of a map. -/
def encode (m : SpanMap) : Bytes :=
  Varint.write m.size ++ m.links.toList.flatMap fun l => (StoredLink.ofLink l).write

/-- The map whose payload the bytes are. -/
def decode (bytes : Bytes) : Except MapFault SpanMap := do
  let links ← ((Payload.readAll bytes).bind (·.mapM StoredLink.toLink)).mapError .corrupt
  match ofOrdered links with
  | .error (.unsound fault) => throw (.corrupt (.unsound fault))
  | result => result

end SpanMap

end MacroAtlas
