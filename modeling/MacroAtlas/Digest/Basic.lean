import MacroAtlas.Digest.Xxh3
import MacroAtlas.Text.Hex

/-!
# Digests

A `Digest` identifies a content by sixteen bytes: the lower and then the upper half of its hash,
each least significant byte first. Its text is 32 lowercase hexadecimal digits. Digests are ordered
byte by byte, which is also the order of their texts.
-/

namespace MacroAtlas

/-- Sixteen bytes that identify a content. -/
structure Digest where
  /-- The bytes, in their order. -/
  bytes : Bytes
  /-- There are sixteen. -/
  length_eq : bytes.length = 16
  deriving DecidableEq

namespace Digest

/-- The number of digits in the text of a digest. -/
def textLength : Nat := 32

/-- Sixteen bytes as a digest. -/
def ofBytes? (bytes : Bytes) : Option Digest :=
  if h : bytes.length = 16 then some ⟨bytes, h⟩ else none

/-- The digest with the given two halves. -/
def ofWords (low high : UInt64) : Digest where
  bytes := Bytes.littleEndian 8 low.toNat ++ Bytes.littleEndian 8 high.toNat
  length_eq := by simp [Bytes.length_littleEndian]

/-- The digest of a content. -/
def ofContent (content : Bytes) : Digest :=
  let hash := Xxh3.hash content.toArray
  ofWords hash.low hash.high

/-- The digits of a digest. -/
def digits (d : Digest) : List Char := Hex.encode d.bytes

/-- The text of a digest: its 32 digits. -/
def text (d : Digest) : String := String.ofList d.digits

/-- The digest spelled by digits. -/
def ofDigits? (digits : List Char) : Option Digest := (Hex.decode? digits).bind ofBytes?

/-- The digest spelled by a text. -/
def ofText? (text : String) : Option Digest := ofDigits? text.toList

/-- A short name of a digest, with its first two bytes. -/
def shortName (d : Digest) : String :=
  s!"ContentHash({String.ofList (Hex.encode (d.bytes.take 2))}..)"

/-- Digests are compared byte by byte. -/
def cmp (d e : Digest) : Ordering := compare d.bytes e.bytes

end Digest

end MacroAtlas
