/-!
# Words that refuse

Arithmetic of machine words wraps around. The operations here refuse what their words cannot hold,
so that a computation by them which is never refused tells that nothing wraps around on its way.
-/

namespace MacroAtlas

namespace Word

/-- A number as a word, unless it is too great. -/
def ofNat? (n : Nat) : Option UInt32 := if n < UInt32.size then some (.ofNat n) else none

/-- The difference of two words, unless it is below zero. -/
def sub? (a b : UInt32) : Option UInt32 := if b ≤ a then some (a - b) else none

/-- The sum of two words, unless it is no word. -/
def add? (a b : UInt32) : Option UInt32 :=
  if a.toNat + b.toNat < UInt32.size then some (a + b) else none

/-- The product of two wide words, unless it is no wide word. -/
def mul? (a b : UInt64) : Option UInt64 :=
  if a.toNat * b.toNat < UInt64.size then some (a * b) else none

/-- A wide word as a word, unless it is too great. -/
def narrow? (a : UInt64) : Option UInt32 :=
  if a.toNat < UInt32.size then some a.toUInt32 else none

/-- Words are never too great to be multiplied as wide words. -/
theorem mul?_toUInt64 (a b : UInt32) :
    mul? a.toUInt64 b.toUInt64 = some (a.toUInt64 * b.toUInt64) := by
  have hlt : a.toNat * b.toNat < UInt32.size * UInt32.size :=
    Nat.mul_lt_mul'' a.toNat_lt b.toNat_lt
  have hsize : UInt32.size * UInt32.size = UInt64.size := by decide
  refine if_pos ?_
  rw [UInt32.toNat_toUInt64, UInt32.toNat_toUInt64, ← hsize]
  exact hlt

/-- A number below the word size fits. -/
theorem ofNat?_eq_some {n : Nat} (h : n < UInt32.size) :
    ∃ a : UInt32, ofNat? n = some a ∧ a.toNat = n :=
  ⟨.ofNat n, if_pos h, UInt32.toNat_ofNat_of_lt' h⟩

/-- Subtraction is not refused where the result is not negative. -/
theorem sub?_eq_some {a b : UInt32} (h : b.toNat ≤ a.toNat) :
    ∃ d : UInt32, sub? a b = some d ∧ d.toNat = a.toNat - b.toNat := by
  have hle : b ≤ a := UInt32.le_iff_toNat_le.mpr h
  exact ⟨a - b, if_pos hle, UInt32.toNat_sub_of_le a b hle⟩

/-- Addition is not refused where the sum fits. -/
theorem add?_eq_some {a b : UInt32} (h : a.toNat + b.toNat < UInt32.size) :
    ∃ s : UInt32, add? a b = some s ∧ s.toNat = a.toNat + b.toNat :=
  ⟨a + b, if_pos h, by rw [UInt32.toNat_add, Nat.mod_eq_of_lt h]⟩

end Word

end MacroAtlas
