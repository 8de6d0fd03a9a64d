import MacroAtlas.Bytes

/-!
# Variable-length integers

A number up to 250 is one byte. A larger one is a lead byte and then two, four or eight bytes, least
significant first. Writing takes the shortest form; reading takes any that fits.
-/

namespace MacroAtlas.Varint

/-- What a number in a payload stands for. -/
inductive Quantity where
  /-- A number of links, up to eight bytes wide. -/
  | count
  /-- An offset or a length, up to four bytes wide. -/
  | offset
  deriving DecidableEq, Repr

/-- The name of the quantity in reports. -/
def Quantity.label : Quantity → String
  | .count => "Usize"
  | .offset => "U32"

/-- What a lead byte announces when the quantity cannot hold it. -/
inductive Misfit where
  /-- Eight bytes where four are the most. -/
  | eightBytes
  /-- Sixteen bytes. -/
  | sixteenBytes
  /-- Nothing: the lead is set aside. -/
  | reserved
  deriving DecidableEq, Repr

/-- The name of the misfit in reports. -/
def Misfit.label : Misfit → String
  | .eightBytes => "U64"
  | .sixteenBytes => "U128"
  | .reserved => "Reserved"

/-- What a lead byte means. -/
inductive Lead where
  /-- The number itself. -/
  | value (n : Nat)
  /-- This many bytes follow. -/
  | wide (width : Nat)
  /-- No number of this quantity starts so. -/
  | misfit (found : Misfit)
  deriving DecidableEq, Repr

/-- The meaning of a lead byte for a quantity. -/
def Lead.ofByte (quantity : Quantity) (b : UInt8) : Lead :=
  if b ≤ 250 then .value b.toNat
  else if b = 251 then .wide 2
  else if b = 252 then .wide 4
  else if b = 253 then
    match quantity with
    | .count => .wide 8
    | .offset => .misfit .eightBytes
  else if b = 254 then .misfit .sixteenBytes
  else .misfit .reserved

/-- The shortest form of a number that fits a 64-bit word. -/
def write (n : Nat) : Bytes :=
  if n ≤ 250 then [UInt8.ofNat n]
  else if n < UInt16.size then 251 :: Bytes.littleEndian 2 n
  else if n < UInt32.size then 252 :: Bytes.littleEndian 4 n
  else 253 :: Bytes.littleEndian 8 n

end MacroAtlas.Varint
