import MacroAtlas.Link
import MacroAtlas.Payload.Varint

/-!
# Why there is no map

A map is refused either because its links cannot stand together or because the bytes that should
hold it are damaged. Every damage, links that cannot stand together included, is reported as corrupt
data.
-/

namespace MacroAtlas

/-- Why bytes are no payload. -/
inductive PayloadFault where
  /-- The bytes end although this many more are due. -/
  | unexpectedEnd (missing : Nat)
  /-- A lead byte announces a number that the quantity cannot hold. -/
  | misfit (expected : Varint.Quantity) (found : Varint.Misfit)
  /-- Bytes are left over after all links. -/
  | trailing (bytes links : Nat)
  /-- A flag byte has more than the literal bit. -/
  | unknownFlags (flags : UInt8)
  /-- A target ends past the last 32-bit offset. -/
  | targetOverflow
  /-- A source ends past the last 32-bit offset. -/
  | sourceOverflow
  /-- The links are readable and cannot stand together in this order. -/
  | unsound (fault : LinkFault)
  deriving DecidableEq, Repr

/-- The two lowercase hexadecimal digits of a byte. -/
private def byteDigits (b : UInt8) : String :=
  String.ofList [Nat.digitChar (b.toNat / 16), Nat.digitChar (b.toNat % 16)]

/-- The reason given in the report of a fault. -/
def PayloadFault.reason : PayloadFault → String
  | .unexpectedEnd missing => s!"UnexpectedEnd \x7b additional: {missing} \x7d"
  | .misfit expected found =>
    s!"InvalidIntegerType \x7b expected: {expected.label}, found: {found.label} \x7d"
  | .trailing bytes links => s!"{bytes} trailing bytes after {links} pairs"
  | .unknownFlags flags => s!"unknown flag bits 0x{byteDigits flags}"
  | .targetOverflow => "target range overflows"
  | .sourceOverflow => "source range overflows"
  | .unsound fault => fault.message

/-- Why there is no map. -/
inductive MapFault where
  /-- The links cannot stand together. -/
  | unsound (fault : LinkFault)
  /-- The bytes are no payload. -/
  | corrupt (fault : PayloadFault)
  deriving DecidableEq, Repr

/-- The report of a fault. -/
def MapFault.message : MapFault → String
  | .unsound fault => fault.message
  | .corrupt fault => s!"corrupt range map data: {fault.reason}"

end MacroAtlas
