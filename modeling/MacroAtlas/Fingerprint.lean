import MacroAtlas.Digest.Basic

/-!
# Fingerprints

An expansion is good for as long as the call and the macro definition behind it are unchanged. Its
`Fingerprint` is the digest of a fixed tag and of the digests of the two, call first.
-/

namespace MacroAtlas

/-- The identity of one expansion. -/
structure Fingerprint where
  /-- The digest of call and definition together. -/
  digest : Digest
  deriving DecidableEq

namespace Fingerprint

/-- The tag that is hashed in front of the two digests. -/
def domainTag : Bytes := Bytes.ofText "expanse.mix.v1"

/-- The fingerprint of a call with one digest and a definition with another. -/
def ofDigests (call definition : Digest) : Fingerprint :=
  ⟨Digest.ofContent (domainTag ++ call.bytes ++ definition.bytes)⟩

/-- The fingerprint of a call text and a definition text. -/
def ofTexts (call definition : String) : Fingerprint :=
  ofDigests (Digest.ofContent (Bytes.ofText call)) (Digest.ofContent (Bytes.ofText definition))

/-- The digits of a fingerprint. -/
def digits (f : Fingerprint) : List Char := f.digest.digits

/-- The text of a fingerprint: 32 lowercase hexadecimal digits. -/
def text (f : Fingerprint) : String := f.digest.text

/-- The fingerprint spelled by digits. -/
def ofDigits? (digits : List Char) : Option Fingerprint := (Digest.ofDigits? digits).map .mk

/-- The fingerprint spelled by a text. -/
def ofText? (text : String) : Option Fingerprint := ofDigits? text.toList

/-- A short name of a fingerprint. -/
def shortName (f : Fingerprint) : String := s!"Fingerprint({f.digest.shortName})"

end Fingerprint

end MacroAtlas
