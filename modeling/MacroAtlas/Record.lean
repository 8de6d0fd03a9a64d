import MacroAtlas.Payload.Basic

/-!
# Stored records

A record is the version of its schema, in two bytes, followed by the payload of a map. A record
under another version is out of date whatever its payload; anything else that cannot be read is
damaged.
-/

namespace MacroAtlas

/-- Why a record yields no map. -/
inductive RecordFault where
  /-- The record has this many bytes, too few for a version. -/
  | headless (length : Nat)
  /-- The record was written under another version. -/
  | outdated (version : Nat)
  /-- The payload is damaged. -/
  | damaged (fault : MapFault)
  deriving DecidableEq, Repr

namespace Record

/-- The version under which records are written. -/
def schemaVersion : Nat := 2

/-- The record of a map. -/
def encode (m : SpanMap) : Bytes := Bytes.littleEndian 2 schemaVersion ++ m.encode

/-- The map of a record. -/
def decode : Bytes → Except RecordFault SpanMap
  | low :: high :: payload =>
    let version := Bytes.toNat [low, high]
    if version = schemaVersion then (SpanMap.decode payload).mapError .damaged
    else .error (.outdated version)
  | short => .error (.headless short.length)

end Record

end MacroAtlas
