import Mathlib.Data.String.Basic
import MacroAtlas.Proofs.Digest.Utf8

/-!
# Lengths in bytes

The characters in front of a text fill as many bytes as their encodings have, so the bytes tell how
many characters there are. A line feed is a byte of its own, and no other character has this byte.
-/

namespace MacroAtlas

open String (utf8Len)

/-- There are no more characters than bytes. -/
theorem length_le_utf8Len (cs : List Char) : cs.length ≤ utf8Len cs := by
  induction cs with
  | nil => rfl
  | cons c rest ih =>
      have hpos := c.utf8Size_pos
      rw [List.length_cons, String.utf8Len_cons]
      omega

namespace Bytes

theorem length_ofText (text : String) : (ofText text).length = utf8Len text.toList :=
  (String.utf8Len_toList text).symm

/-- The bytes in front are those of the characters in front. -/
theorem take_ofText {text : String} {front back : List Char} (h : text.toList = front ++ back) :
    (ofText text).take (utf8Len front) = ofText (String.ofList front) := by
  have hlength := length_ofText (String.ofList front)
  rw [String.toList_ofList] at hlength
  rw [← String.ofList_toList (s := text), h, ofText_ofList, List.flatMap_append, ← ofText_ofList,
    ← hlength, List.take_left]

/-- No other character has the byte of a line feed in its encoding. -/
theorem count_utf8EncodeChar (c : Char) :
    (String.utf8EncodeChar c).count '\n'.toUInt8 = if c = '\n' then 1 else 0 := by
  split
  · next hc =>
      subst hc
      decide
  · next hc =>
      have hne : c.val.toNat ≠ 10 := fun heq => hc (Char.toNat_inj.mp heq)
      have hfeed : '\n'.toUInt8.toNat = 10 := rfl
      rw [List.count_eq_zero]
      simp only [String.utf8EncodeChar]
      repeat' split
      all_goals
        simp only [List.mem_cons, List.not_mem_nil, or_false, ← UInt8.toNat_inj, hfeed,
          UInt8.toNat_ofNat']
        omega

/-- A text has as many bytes of line feeds as line feeds. -/
theorem count_ofText (text : String) :
    (ofText text).count '\n'.toUInt8 = text.toList.count '\n' := by
  rw [← String.ofList_toList (s := text), ofText_ofList, String.toList_ofList]
  induction text.toList with
  | nil => rfl
  | cons c rest ih =>
      rw [List.flatMap_cons, List.count_append, ih, count_utf8EncodeChar, List.count_cons,
        Nat.add_comm]
      simp only [beq_iff_eq]

end Bytes

/-- Of two fronts of a text the one with more line feeds is longer. -/
theorem utf8Len_lt_of_count_lt {front front' back back' : List Char}
    (h : front ++ back = front' ++ back') (hc : front.count '\n' < front'.count '\n') :
    utf8Len front < utf8Len front' := by
  have hprefix : front <+: front' ++ back' := ⟨back, h⟩
  rcases List.prefix_or_prefix_of_prefix hprefix (List.prefix_append front' back') with
    ⟨mid, rfl⟩ | hback
  · have hmid : utf8Len mid ≠ 0 := by
      rw [Ne, String.utf8Len_eq_zero]
      rintro rfl
      simp at hc
    rw [String.utf8Len_append]
    omega
  · exact absurd (hback.sublist.count_le '\n') (Nat.not_le.mpr hc)

/-- Of two fronts of a text the one that is not longer is a front of the other. -/
theorem isPrefix_of_utf8Len_le {front front' back back' : List Char}
    (h : front ++ back = front' ++ back') (hle : utf8Len front ≤ utf8Len front') :
    front <+: front' := by
  have hprefix : front <+: front' ++ back' := ⟨back, h⟩
  rcases List.prefix_or_prefix_of_prefix hprefix (List.prefix_append front' back') with
    hfront | ⟨mid, rfl⟩
  · exact hfront
  · rw [String.utf8Len_append] at hle
    have hmid : utf8Len mid = 0 := by omega
    obtain rfl := String.utf8Len_eq_zero.mp hmid
    exact ⟨[], by simp only [List.append_nil]⟩

end MacroAtlas
