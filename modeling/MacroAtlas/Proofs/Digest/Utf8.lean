import Mathlib.Data.List.Basic
import MacroAtlas.Proofs.Fingerprint

/-!
# Digests read off bytes

A digest can be read off the bytes of a text in UTF-8 as well as off its characters. The bytes of
other characters than digits are no digits, so both ways accept the same texts.
-/

namespace MacroAtlas

theorem Bytes.ofText_inj {s t : String} : ofText s = ofText t ↔ s = t := by
  rw [ofText, ofText, Array.toList_inj, ← ByteArray.ext_iff]
  exact String.toByteArray_inj

/-- The bytes of a text are those of its characters, one behind the other. -/
theorem Bytes.ofText_ofList (chars : List Char) :
    ofText (String.ofList chars) = chars.flatMap String.utf8EncodeChar := by
  rw [ofText, String.toUTF8, String.toByteArray_ofList]
  exact List.toList_data_toByteArray

namespace Hex

/-- The number of the digit that a byte of a text stands for. -/
def ofAscii? (b : UInt8) : Option UInt8 :=
  if '0'.toUInt8 ≤ b ∧ b ≤ '9'.toUInt8 then some (b - '0'.toUInt8)
  else if 'a'.toUInt8 ≤ b ∧ b ≤ 'f'.toUInt8 then some (b - 'a'.toUInt8 + 10)
  else none

/-- The byte string spelled by the bytes of a text, two for each byte. -/
def decodeUtf8? : Bytes → Option Bytes
  | [] => some []
  | [_] => none
  | high :: low :: rest => do
    let h ← ofAscii? high
    let l ← ofAscii? low
    let bytes ← decodeUtf8? rest
    return (h <<< 4 ||| l) :: bytes

/-- The characters with the numbers of the bytes. -/
def characters (bytes : Bytes) : List Char := bytes.map fun b => Char.ofNat b.toNat

/-- A byte is a digit where the character with its number is one. -/
private theorem ofAscii?_ofNat :
    ∀ n < 256, ofAscii? (UInt8.ofNat n) = (value? (Char.ofNat n)).map UInt8.ofNat := by
  decide +kernel

private theorem shift_or_ofNat : ∀ h < 16, ∀ l < 16,
    UInt8.ofNat h <<< 4 ||| UInt8.ofNat l = UInt8.ofNat (16 * h + l) := by
  decide +kernel

theorem ofAscii?_eq (b : UInt8) :
    ofAscii? b = (value? (Char.ofNat b.toNat)).map UInt8.ofNat := by
  have h := ofAscii?_ofNat b.toNat b.toNat_lt
  rwa [UInt8.ofNat_toNat] at h

/-- Reading bytes comes to reading the characters with their numbers. -/
theorem decodeUtf8?_eq (bytes : Bytes) : decodeUtf8? bytes = decode? (characters bytes) := by
  induction bytes using decodeUtf8?.induct with
  | case1 => rfl
  | case2 b => rfl
  | case3 high low rest ih =>
      rw [characters] at ih
      simp only [decodeUtf8?, characters, List.map_cons, decode?, ofAscii?_eq, ih]
      cases hh : value? (Char.ofNat high.toNat) with
      | none => rfl
      | some h =>
          cases hl : value? (Char.ofNat low.toNat) with
          | none => rfl
          | some l =>
              obtain ⟨hh, -⟩ := value?_eq_some_iff.mp hh
              obtain ⟨hl, -⟩ := value?_eq_some_iff.mp hl
              simp only [Option.map_some, Option.bind_eq_bind, Option.bind_some,
                shift_or_ofNat h hh l hl]

private theorem toNat_ofNat_of_byte : ∀ n < 256, (Char.ofNat n).toNat = n := by
  decide +kernel

/-- Different bytes have different characters. -/
theorem characters_inj {s t : Bytes} : characters s = characters t ↔ s = t := by
  refine List.map_inj_right fun a b h => ?_
  have hnumber := congrArg Char.toNat h
  rw [toNat_ofNat_of_byte _ a.toNat_lt, toNat_ofNat_of_byte _ b.toNat_lt] at hnumber
  exact UInt8.toNat_inj.mp hnumber

/-- A digit is written as one byte, which has its number. -/
private theorem characters_utf8EncodeChar_digit :
    ∀ n < 16, characters (String.utf8EncodeChar (digit n)) = [digit n] := by
  decide

/-- Digits have the numbers of the bytes that they are written as. -/
theorem characters_ofText_encode (bytes : Bytes) :
    characters (Bytes.ofText (String.ofList (encode bytes))) = encode bytes := by
  rw [Bytes.ofText_ofList, characters, List.map_flatMap]
  calc (encode bytes).flatMap (fun c => characters (String.utf8EncodeChar c))
      = (encode bytes).flatMap fun c => [c] := by
        refine List.flatMap_congr fun c hc => ?_
        obtain ⟨n, hn, rfl⟩ := exists_digit_of_mem_encode hc
        exact characters_utf8EncodeChar_digit n hn
    _ = encode bytes := List.flatMap_singleton' _

/-- A byte string is read off the bytes of one text only, its spelling. -/
theorem decodeUtf8?_ofText_eq_some_iff {text : String} {bytes : Bytes} :
    decodeUtf8? (Bytes.ofText text) = some bytes ↔ text = String.ofList (encode bytes) := by
  rw [decodeUtf8?_eq, decode?_eq_some_iff, ← Bytes.ofText_inj, ← characters_inj,
    characters_ofText_encode]

/-- A spelling has as many bytes as characters. -/
theorem length_ofText_encode (bytes : Bytes) :
    (Bytes.ofText (String.ofList (encode bytes))).length = (encode bytes).length := by
  have h := congrArg List.length (characters_ofText_encode bytes)
  rwa [characters, List.length_map] at h

end Hex

namespace Digest

/-- The digest spelled by the bytes of a text, of which there are thirty-two. -/
def ofUtf8? (bytes : Bytes) : Option Digest :=
  if bytes.length = textLength then (Hex.decodeUtf8? bytes).bind ofBytes? else none

/-- Whether the bytes of a text are read or its characters makes no difference. -/
theorem ofUtf8?_ofText (text : String) : ofUtf8? (Bytes.ofText text) = ofText? text := by
  ext d
  rw [ofText?_eq_some_iff]
  constructor
  · intro h
    obtain ⟨-, hbytes⟩ := Option.ite_none_right_eq_some.mp h
    obtain ⟨bytes, hread, hd⟩ := Option.bind_eq_some_iff.mp hbytes
    obtain rfl := ofBytes?_eq_some_iff.mp hd
    exact Hex.decodeUtf8?_ofText_eq_some_iff.mp hread
  · rintro rfl
    have hread : Hex.decodeUtf8? (Bytes.ofText d.text) = some d.bytes :=
      Hex.decodeUtf8?_ofText_eq_some_iff.mpr rfl
    have hlength : (Bytes.ofText d.text).length = textLength := by
      rw [Digest.text, digits, Hex.length_ofText_encode, Hex.length_encode, d.length_eq, textLength]
    rw [ofUtf8?, if_pos hlength, hread, Option.bind_some]
    exact ofBytes?_eq_some_iff.mpr rfl

end Digest

end MacroAtlas
