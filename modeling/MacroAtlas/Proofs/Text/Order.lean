import MacroAtlas.Proofs.Digest.Utf8

/-!
# The order of what is spelled

Texts are spelled by characters, characters by bytes in UTF-8, and bytes by digits in hexadecimal.
Each spelling keeps the order, so it makes no difference which of the three is compared.
-/

namespace MacroAtlas

section Lists

variable {α β : Type} [Ord α] [Ord β]

/-- Lists are compared by their heads first, then by their tails. -/
theorem compare_cons_eq_lt_iff {a b : α} {s t : List α} :
    compare (a :: s) (b :: t) = .lt ↔
      compare a b = .lt ∨ compare a b = .eq ∧ compare s t = .lt := by
  rw [List.compare_cons_cons, Ordering.then_eq_lt]

/-- A common front does not count. -/
theorem compare_append_left [Std.ReflOrd α] (front s t : List α) :
    compare (front ++ s) (front ++ t) = compare s t := by
  induction front with
  | nil => rfl
  | cons a rest ih =>
      rw [List.cons_append, List.cons_append, List.compare_cons_cons, Std.ReflOrd.compare_self, ih]
      rfl

/-- What stands behind fronts of one length counts only where the fronts are alike. -/
theorem compare_append_of_length_eq {xs ys : List α} (h : xs.length = ys.length) (s t : List α) :
    compare (xs ++ s) (ys ++ t) = (compare xs ys).then (compare s t) := by
  induction xs generalizing ys with
  | nil =>
      obtain rfl := List.eq_nil_of_length_eq_zero h.symm
      rfl
  | cons x xs ih =>
      cases ys with
      | nil => cases h
      | cons y ys =>
          simp only [List.cons_append, List.compare_cons_cons, Ordering.then_assoc]
          rw [ih (Nat.succ.inj h)]

/-- Each element is spelled by some symbols, and the spellings stand in the order of the elements,
whatever comes behind them. -/
structure OrderedCode (code : α → List β) : Prop where
  /-- No spelling is empty. -/
  ne_nil : ∀ a, code a ≠ []
  /-- The spelling of a lesser element is less before it ends. -/
  lt : ∀ a b (s t : List β), compare a b = .lt → compare (code a ++ s) (code b ++ t) = .lt

/-- What is spelled element by element stands in the order of the elements. -/
theorem OrderedCode.compare_flatMap [Std.OrientedOrd α] [Std.LawfulEqOrd α] [Std.OrientedOrd β]
    {code : α → List β} (h : OrderedCode code) (xs ys : List α) :
    compare (xs.flatMap code) (ys.flatMap code) = compare xs ys := by
  induction xs generalizing ys with
  | nil =>
      cases ys with
      | nil => rfl
      | cons y ys =>
          obtain ⟨b, rest, hcode⟩ := List.exists_cons_of_ne_nil (h.ne_nil y)
          rw [List.flatMap_cons, hcode]
          rfl
  | cons x xs ih =>
      cases ys with
      | nil =>
          obtain ⟨b, rest, hcode⟩ := List.exists_cons_of_ne_nil (h.ne_nil x)
          rw [List.flatMap_cons, hcode]
          rfl
      | cons y ys =>
          rw [List.flatMap_cons, List.flatMap_cons, List.compare_cons_cons]
          cases hxy : compare x y with
          | lt => exact h.lt x y _ _ hxy
          | eq =>
              obtain rfl := Std.LawfulEqOrd.eq_of_compare hxy
              rw [compare_append_left, ih]
              rfl
          | gt =>
              rw [Std.OrientedCmp.gt_iff_lt] at hxy
              rw [Std.OrientedOrd.eq_swap, h.lt y x _ _ hxy]
              rfl

end Lists

/-- Comparing characters one by one is the order of lists of characters. -/
theorem compare_chars_eq_lt_iff {s t : List Char} : compare s t = .lt ↔ s < t := by
  induction s generalizing t with
  | nil => cases t <;> simp
  | cons c s ih =>
      cases t with
      | nil => simp
      | cons d t =>
          rw [compare_cons_eq_lt_iff, List.cons_lt_cons_iff, ih, Std.LawfulEqOrd.compare_eq_iff_eq]
          exact or_congr_left compareOfLessAndEq_eq_lt

/-- Texts stand in the order of their characters. -/
theorem compare_toList (s t : String) : compare s.toList t.toList = compare s t := by
  cases h : compare s.toList t.toList with
  | lt =>
      have hlt : s < t := compare_chars_eq_lt_iff.mp h
      exact (compareOfLessAndEq_eq_lt.mpr hlt).symm
  | eq =>
      rw [String.toList_inj.mp (Std.LawfulEqOrd.eq_of_compare h), Std.ReflOrd.compare_self]
  | gt =>
      have hlt : t < s := compare_chars_eq_lt_iff.mp (Std.OrientedCmp.gt_iff_lt.mp h)
      have hback : compare t s = .lt := compareOfLessAndEq_eq_lt.mpr hlt
      exact (Std.OrientedCmp.gt_iff_lt.mpr hback).symm

private theorem compare_bytes_eq_lt_iff {a b : UInt8} : compare a b = .lt ↔ a.toNat < b.toNat :=
  compareOfLessAndEq_eq_lt

/-- UTF-8 keeps the order of characters: longer encodings start with greater bytes. -/
theorem orderedCode_utf8EncodeChar : OrderedCode String.utf8EncodeChar where
  ne_nil c := by
    have hlength := c.utf8Size_pos
    rw [← String.length_utf8EncodeChar] at hlength
    exact List.ne_nil_of_length_pos hlength
  lt c d s t h := by
    have hless : c < d := compareOfLessAndEq_eq_lt.mp h
    have hlt : c.val.toNat < d.val.toNat := hless
    have hbound : d.val.toNat < 0x110000 := by
      rcases d.valid with hlow | ⟨-, hhigh⟩
      · exact Nat.lt_trans hlow (by decide)
      · exact hhigh
    -- The bytes show remainders by 64, of the number and of one quotient after the other.
    have hsquare (n : Nat) : n / 4096 = n / 64 / 64 := (Nat.div_div_eq_div_mul n 64 64).symm
    have hcube (n : Nat) : n / 262144 = n / 64 / 64 / 64 := by
      rw [Nat.div_div_eq_div_mul, Nat.div_div_eq_div_mul]
    simp only [String.utf8EncodeChar]
    repeat' split
    all_goals
      simp only [List.cons_append, compare_cons_eq_lt_iff, compare_bytes_eq_lt_iff,
        Std.LawfulEqOrd.compare_eq_iff_eq, ← UInt8.toNat_inj, UInt8.toNat_ofNat', hsquare, hcube]
      omega

/-- Texts stand in the order of their bytes. -/
theorem Bytes.compare_ofText (s t : String) : compare (ofText s) (ofText t) = compare s t := by
  rw [← String.ofList_toList (s := s), ← String.ofList_toList (s := t), ofText_ofList,
    ofText_ofList, orderedCode_utf8EncodeChar.compare_flatMap, ← compare_toList,
    String.toList_ofList, String.toList_ofList]

namespace Hex

private theorem toNat_digit_lt_iff :
    ∀ m < 16, ∀ n < 16, (digit m).toNat < (digit n).toNat ↔ m < n := by
  decide

private theorem digit_inj : ∀ m < 16, ∀ n < 16, digit m = digit n ↔ m = n := by
  decide

/-- Hexadecimal keeps the order of bytes. -/
theorem orderedCode_ofByte : OrderedCode ofByte where
  ne_nil _ := List.cons_ne_nil _ _
  lt a b s t h := by
    have hlt := compare_bytes_eq_lt_iff.mp h
    have ha := a.toNat_lt
    have hb := b.toNat_lt
    have hcompare {m n : Nat} (hm : m < 16) (hn : n < 16) :
        compare (digit m) (digit n) = .lt ↔ m < n :=
      compareOfLessAndEq_eq_lt.trans (toNat_digit_lt_iff m hm n hn)
    have hhigh := hcompare (m := a.toNat / 16) (n := b.toNat / 16) (by omega) (by omega)
    have hlow := hcompare (m := a.toNat % 16) (n := b.toNat % 16) (by omega) (by omega)
    have hsame := digit_inj (a.toNat / 16) (by omega) (b.toNat / 16) (by omega)
    simp only [ofByte, List.cons_append, compare_cons_eq_lt_iff,
      Std.LawfulEqOrd.compare_eq_iff_eq, hhigh, hlow, hsame]
    omega

/-- Byte strings stand in the order of their digits. -/
theorem compare_encode (s t : Bytes) : compare (encode s) (encode t) = compare s t :=
  orderedCode_ofByte.compare_flatMap s t

end Hex

end MacroAtlas
