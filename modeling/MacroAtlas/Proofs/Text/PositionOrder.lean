import MacroAtlas.Proofs.Text.LineIndex

/-!
# The order of positions

Each character leads to a later position, be it that the column grows or that a new line begins. Of
two offsets the lesser has fewer characters in front, so it makes no difference whether offsets or
positions are compared.
-/

namespace MacroAtlas

namespace Position

/-- Positions are ordered by their line, then by their column. -/
def cmp (p q : Position) : Ordering :=
  (compare p.line q.line).then (compare p.column q.column)

instance : Std.TransCmp cmp :=
  inferInstanceAs (Std.TransCmp (compareLex (compareOn line) (compareOn column)))

instance : Std.LawfulEqCmp cmp where
  eq_of_compare {p q} h := by
    obtain ⟨hline, hcolumn⟩ := Ordering.then_eq_eq.mp h
    cases p
    cases q
    rw [Nat.compare_eq_eq] at hline hcolumn
    cases hline
    cases hcolumn
    rfl

/-- Positions are ordered by line, then by column. -/
theorem cmp_eq_lt_iff {p q : Position} :
    p.cmp q = .lt ↔ p.line < q.line ∨ p.line = q.line ∧ p.column < q.column := by
  rw [cmp, Ordering.then_eq_lt, Nat.compare_eq_lt, Nat.compare_eq_eq, Nat.compare_eq_lt]

theorem cmp_eq_eq_iff {p q : Position} : p.cmp q = .eq ↔ p = q :=
  Std.LawfulEqCmp.compare_eq_iff_eq

/-- The position behind one more character is a later one. -/
theorem cmp_advance (p : Position) (c : Char) : p.cmp (p.advance c) = .lt := by
  rw [cmp_eq_lt_iff, advance]
  split
  · exact Or.inl (Nat.lt_succ_self p.line)
  · exact Or.inr ⟨rfl, Nat.lt_succ_self p.column⟩

/-- Passing over any character at all moves a position forward. -/
theorem cmp_foldl_advance {more : List Char} (h : more ≠ []) (p : Position) :
    p.cmp (more.foldl advance p) = .lt := by
  induction more generalizing p with
  | nil => exact absurd rfl h
  | cons c rest ih =>
      rw [List.foldl_cons]
      by_cases hrest : rest = []
      · rw [hrest, List.foldl_nil]
        exact cmp_advance p c
      · exact Std.TransCmp.lt_trans (cmp_advance p c) (ih hrest (p.advance c))

end Position

namespace LineIndex

variable {text : String} {o o' : UInt32} {p q : Position}

/-- A greater offset has a later position. -/
theorem cmp_of_lt (hp : (ofText text).position? o = some p)
    (hq : (ofText text).position? o' = some q) (h : o < o') : p.cmp q = .lt := by
  obtain ⟨front, back, hsplit, hlength, rfl⟩ := position?_eq_some_iff.mp hp
  obtain ⟨front', back', hsplit', hlength', rfl⟩ := position?_eq_some_iff.mp hq
  rw [UInt32.lt_iff_toNat_lt, ← hlength, ← hlength'] at h
  obtain ⟨more, rfl⟩ := isPrefix_of_utf8Len_le (hsplit.symm.trans hsplit') (Nat.le_of_lt h)
  rw [Position.behind_append]
  refine Position.cmp_foldl_advance ?_ _
  rintro rfl
  rw [List.append_nil] at h
  exact Nat.lt_irrefl _ h

/-- Positions stand in the order of their offsets. -/
theorem cmp_position (hp : (ofText text).position? o = some p)
    (hq : (ofText text).position? o' = some q) : p.cmp q = compare o o' := by
  cases h : compare o o' with
  | lt => exact cmp_of_lt hp hq (Std.compare_eq_lt.mp h)
  | eq =>
      rw [Std.LawfulEqOrd.eq_of_compare h] at hp
      obtain rfl := Option.some.inj (hp.symm.trans hq)
      exact Std.ReflCmp.compare_self
  | gt => exact Std.OrientedCmp.gt_iff_lt.mpr (cmp_of_lt hq hp (Std.compare_eq_gt.mp h))

/-- The lesser of two offsets has the earlier position, and no two share one. -/
theorem position_order_is_offset_order (text : String) :
    let index := ofText text
    (∀ o o' p q, index.position? o = some p → index.position? o' = some q →
      (o < o' ↔ p.cmp q = .lt) ∧ (o = o' ↔ p = q)) ∧
    ∀ span first last, ¬ span.Inverted → index.positions? span = some (first, last) →
      first.cmp last ≠ .gt ∧ (first = last ↔ span.isEmpty = true) := by
  intro index
  have horder : ∀ o o' p q, index.position? o = some p → index.position? o' = some q →
      (o < o' ↔ p.cmp q = .lt) ∧ (o = o' ↔ p = q) := by
    intro o o' p q hp hq
    have hcmp : p.cmp q = compare o o' := cmp_position hp hq
    refine ⟨by rw [hcmp, Std.compare_eq_lt], ?_⟩
    rw [← Position.cmp_eq_eq_iff, hcmp, Std.compare_eq_iff_eq]
  refine ⟨horder, fun span first last hordered hpositions => ?_⟩
  obtain ⟨start, hstart, hrest⟩ := Option.bind_eq_some_iff.mp hpositions
  obtain ⟨stop, hstop, hpair⟩ := Option.bind_eq_some_iff.mp hrest
  obtain ⟨rfl, rfl⟩ := Prod.mk.inj (Option.some.inj hpair)
  obtain ⟨-, hequal⟩ := horder _ _ _ _ hstart hstop
  refine ⟨fun hgt => hordered ?_, ?_⟩
  · rw [cmp_position hstart hstop] at hgt
    exact Std.compare_eq_gt.mp hgt
  · rw [← hequal, Span.isEmpty, beq_iff_eq]

/-- The second of these offsets is on a later line, but in an earlier column. -/
theorem position_order_is_offset_order_next_line :
    let index := ofText "é\nb"
    index.position? 2 = some ⟨1, 2⟩ ∧ index.position? 3 = some ⟨2, 1⟩ ∧
      Position.cmp ⟨1, 2⟩ ⟨2, 1⟩ = .lt ∧ (2 : UInt32) < 3 ∧
      (⟨1, 2⟩ : Position) ≠ ⟨2, 1⟩ ∧ ¬ (⟨2, 3⟩ : Span).isEmpty = true := by
  intro index
  obtain ⟨horder, hspan⟩ := position_order_is_offset_order "é\nb"
  have hfirst : index.position? 2 = some ⟨1, 2⟩ := by decide +kernel
  have hlast : index.position? 3 = some ⟨2, 1⟩ := by decide +kernel
  have hpositions : index.positions? ⟨2, 3⟩ = some (⟨1, 2⟩, ⟨2, 1⟩) := by decide +kernel
  obtain ⟨hlt, -⟩ := horder 2 3 _ _ hfirst hlast
  obtain ⟨-, hempty⟩ := hspan ⟨2, 3⟩ _ _ (by decide) hpositions
  have hne : (⟨1, 2⟩ : Position) ≠ ⟨2, 1⟩ := by decide
  exact ⟨hfirst, hlast, hlt.mp (by decide), by decide, hne, fun h => hne (hempty.mpr h)⟩

end LineIndex

end MacroAtlas
