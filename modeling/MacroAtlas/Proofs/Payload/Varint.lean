import MacroAtlas.Payload.Basic
import Mathlib.Algebra.Order.Ring.Nat

/-!
# The spellings of a number

A number in a payload has up to four spellings, one for each width that is large enough. A reader
takes exactly one from the front of the bytes. The one that is written is shorter than all others.
-/

namespace MacroAtlas

namespace Bytes

/-- A string of bytes spells a number below the matching power. -/
theorem toNat_lt (bytes : Bytes) : bytes.toNat < 256 ^ bytes.length := by
  induction bytes with
  | nil => simp [toNat]
  | cons b rest ih =>
      have hb := b.toNat_lt
      simp only [toNat, List.length_cons, pow_succ]
      omega

/-- Reading the bytes of a number that fits gives the number back. -/
theorem toNat_littleEndian {width n : Nat} (h : n < 256 ^ width) :
    (littleEndian width n).toNat = n := by
  induction width generalizing n with
  | zero =>
      rw [pow_zero] at h
      simp only [littleEndian, toNat]
      omega
  | succ width ih =>
      rw [pow_succ] at h
      have hq : n / 256 < 256 ^ width := by omega
      have hr : (UInt8.ofNat (n % 256)).toNat = n % 256 :=
        UInt8.toNat_ofNat_of_lt' (Nat.mod_lt _ (by decide))
      simp only [littleEndian, toNat, ih hq, hr]
      omega

/-- Writing the number of a byte string at its length gives the bytes back. -/
theorem littleEndian_toNat (bytes : Bytes) : littleEndian bytes.length bytes.toNat = bytes := by
  induction bytes with
  | nil => rfl
  | cons b rest ih =>
      have hb := b.toNat_lt
      have hr : (b.toNat + 256 * toNat rest) % 256 = b.toNat := by omega
      have hq : (b.toNat + 256 * toNat rest) / 256 = toNat rest := by omega
      simp only [List.length_cons, toNat, littleEndian, hr, hq, ih, UInt8.ofNat_toNat]

/-- The first string is the shorter one, unless the two are the same. -/
def Undercuts (best bytes : Bytes) : Prop :=
  best.length ≤ bytes.length ∧ (bytes.length = best.length → bytes = best)

theorem Undercuts.refl (bytes : Bytes) : bytes.Undercuts bytes := ⟨Nat.le_refl _, fun _ => rfl⟩

/-- Strings that are put together from shorter ones are shorter. -/
theorem Undercuts.append {best bytes best' bytes' : Bytes} (h : best.Undercuts bytes)
    (h' : best'.Undercuts bytes') : (best ++ best').Undercuts (bytes ++ bytes') := by
  obtain ⟨hle, heq⟩ := h
  obtain ⟨hle', heq'⟩ := h'
  simp only [Undercuts, List.length_append]
  refine ⟨Nat.add_le_add hle hle', fun hl => ?_⟩
  rw [heq (by omega), heq' (by omega)]

end Bytes

/-- A chain of two computations succeeds exactly when both do. -/
theorem Except.bind_eq_ok_iff {ε α β : Type} {x : Except ε α} {f : α → Except ε β} {b : β} :
    (x >>= f) = .ok b ↔ ∃ a, x = .ok a ∧ f a = .ok b := by
  cases x with
  | error e => simp [bind, Except.bind]
  | ok a => simp [bind, Except.bind]

namespace Payload

/-- A reader takes exactly the bytes of a form from the front and leaves the rest alone. -/
def Reads {α : Type} (read : Bytes → Except PayloadFault (α × Bytes)) (form : α → Bytes → Prop) :
    Prop :=
  ∀ bytes a rest, read bytes = .ok (a, rest) ↔ ∃ front, form a front ∧ bytes = front ++ rest

theorem reads_readByte : Reads readByte fun b front => front = [b] := by
  intro bytes b rest
  cases bytes with
  | nil => simp [readByte]
  | cons c tail => simp [readByte]

theorem reads_readBytes (count : Nat) :
    Reads (readBytes count) fun taken front => front = taken ∧ taken.length = count := by
  intro bytes taken rest
  simp only [readBytes]
  constructor
  · intro h
    split at h
    · simp at h
    · next hl =>
        obtain ⟨rfl, rfl⟩ := Prod.mk.inj (Except.ok.inj h)
        refine ⟨_, ⟨rfl, ?_⟩, (List.take_append_drop count bytes).symm⟩
        have := List.length_take_le count bytes
        omega
  · rintro ⟨front, ⟨rfl, rfl⟩, rfl⟩
    simp

end Payload

namespace Varint

/-- The bytes spell the number in a width that the quantity admits. -/
inductive Spells (quantity : Quantity) (n : Nat) : Bytes → Prop where
  /-- The number is a byte of its own. -/
  | value (small : n ≤ 250) : Spells quantity n [UInt8.ofNat n]
  /-- Two bytes follow a lead. -/
  | two (fits : n < UInt16.size) : Spells quantity n (251 :: Bytes.littleEndian 2 n)
  /-- Four bytes follow a lead. -/
  | four (fits : n < UInt32.size) : Spells quantity n (252 :: Bytes.littleEndian 4 n)
  /-- Eight bytes follow a lead, for a count only. -/
  | eight (count : quantity = .count) (fits : n < UInt64.size) :
      Spells quantity n (253 :: Bytes.littleEndian 8 n)

/-- The numbers below the bound are those that the quantity can hold. -/
def Quantity.bound : Quantity → Nat
  | .count => UInt64.size
  | .offset => UInt32.size

/-- Only numbers that the quantity can hold have a spelling. -/
theorem Spells.lt_bound {quantity : Quantity} {n : Nat} {bytes : Bytes}
    (h : Spells quantity n bytes) : n < quantity.bound := by
  have h16 : UInt16.size = 65536 := rfl
  have h32 : UInt32.size = 4294967296 := rfl
  have h64 : UInt64.size = 18446744073709551616 := rfl
  cases h with
  | value small => cases quantity <;> simp only [Quantity.bound] <;> omega
  | two fits => cases quantity <;> simp only [Quantity.bound] <;> omega
  | four fits => cases quantity <;> simp only [Quantity.bound] <;> omega
  | eight count fits => subst count; exact fits

/-- What is written spells the number. -/
theorem spells_write {quantity : Quantity} {n : Nat} (h : n < quantity.bound) :
    Spells quantity n (write n) := by
  unfold write
  split
  · exact .value ‹_›
  split
  · exact .two ‹_›
  split
  · exact .four ‹_›
  cases quantity with
  | count => exact .eight rfl h
  | offset => exact absurd h ‹_›

/-- A lead stands for a number by itself exactly up to 250. -/
theorem Lead.ofByte_eq_value_iff {quantity : Quantity} {b : UInt8} {n : Nat} :
    Lead.ofByte quantity b = .value n ↔ n ≤ 250 ∧ b = UInt8.ofNat n := by
  have hle : b ≤ 250 ↔ b.toNat ≤ 250 := by rw [UInt8.le_iff_toNat_le]; rfl
  constructor
  · intro h
    by_cases hb : b ≤ 250
    · simp only [Lead.ofByte, hb, ite_true, Lead.value.injEq] at h
      subst n
      exact ⟨hle.mp hb, (UInt8.ofNat_toNat).symm⟩
    · simp only [Lead.ofByte, hb, ite_false] at h
      cases quantity <;> simp only at h <;> repeat' split at h
      all_goals simp at h
  · rintro ⟨hn, rfl⟩
    have ht : (UInt8.ofNat n).toNat = n :=
      UInt8.toNat_ofNat_of_lt' (Nat.lt_of_le_of_lt hn (by decide))
    have hb : UInt8.ofNat n ≤ 250 := hle.mpr (by rw [ht]; exact hn)
    simp only [Lead.ofByte, hb, ite_true, ht]

/-- The three leads that announce more bytes, of which the last is for counts only. -/
theorem Lead.ofByte_eq_wide_iff {quantity : Quantity} {b : UInt8} {width : Nat} :
    Lead.ofByte quantity b = .wide width ↔
      b = 251 ∧ width = 2 ∨ b = 252 ∧ width = 4 ∨
        quantity = .count ∧ b = 253 ∧ width = 8 := by
  constructor
  · intro h
    unfold Lead.ofByte at h
    repeat' split at h
    all_goals simp_all
  · rintro (⟨rfl, rfl⟩ | ⟨rfl, rfl⟩ | ⟨rfl, rfl, rfl⟩) <;> rfl

/-- A lead and the bytes that it announces spell the number of those bytes. -/
theorem spells_of_lead {quantity : Quantity} {b : UInt8} {width : Nat} {digits : Bytes}
    (h : Lead.ofByte quantity b = .wide width) (hl : digits.length = width) :
    Spells quantity digits.toNat (b :: digits) := by
  have hlt := digits.toNat_lt
  have hw := digits.littleEndian_toNat
  rw [hl] at hlt hw
  have hs : Spells quantity digits.toNat (b :: Bytes.littleEndian width digits.toNat) := by
    rcases Lead.ofByte_eq_wide_iff.mp h with ⟨rfl, rfl⟩ | ⟨rfl, rfl⟩ | ⟨hq, rfl, rfl⟩
    · exact .two hlt
    · exact .four hlt
    · exact .eight hq hlt
  rwa [hw] at hs

/-- A spelling is either a lead alone or a lead with the bytes that it announces. -/
theorem Spells.lead {quantity : Quantity} {n : Nat} {bytes : Bytes}
    (h : Spells quantity n bytes) :
    (∃ b, Lead.ofByte quantity b = .value n ∧ bytes = [b]) ∨
      ∃ b width, Lead.ofByte quantity b = .wide width ∧ n < 256 ^ width ∧
        bytes = b :: Bytes.littleEndian width n := by
  cases h with
  | value small => exact Or.inl ⟨_, Lead.ofByte_eq_value_iff.mpr ⟨small, rfl⟩, rfl⟩
  | two fits => exact Or.inr ⟨251, 2, rfl, fits, rfl⟩
  | four fits => exact Or.inr ⟨252, 4, rfl, fits, rfl⟩
  | eight count fits => subst count; exact Or.inr ⟨253, 8, rfl, fits, rfl⟩

/-- Numbers are read in all their spellings and in nothing else. -/
theorem reads_readNumber (quantity : Quantity) :
    Payload.Reads (Payload.readNumber quantity) (Spells quantity) := by
  intro bytes n rest
  simp only [Payload.readNumber, Except.bind_eq_ok_iff, Prod.exists]
  constructor
  · rintro ⟨b, tail, hb, h⟩
    obtain ⟨_, rfl, rfl⟩ := (Payload.reads_readByte _ _ _).mp hb
    cases hlead : Lead.ofByte quantity b with
    | value m =>
        simp only [hlead, pure, Except.pure, Except.ok.injEq, Prod.mk.injEq] at h
        obtain ⟨rfl, rfl⟩ := h
        obtain ⟨hm, rfl⟩ := Lead.ofByte_eq_value_iff.mp hlead
        exact ⟨_, .value hm, rfl⟩
    | wide width =>
        simp only [hlead, Except.bind_eq_ok_iff, Prod.exists] at h
        obtain ⟨digits, after, hd, h⟩ := h
        obtain ⟨_, ⟨rfl, hl⟩, rfl⟩ := (Payload.reads_readBytes _ _ _ _).mp hd
        simp only [pure, Except.pure, Except.ok.injEq, Prod.mk.injEq] at h
        obtain ⟨rfl, rfl⟩ := h
        exact ⟨_, spells_of_lead hlead hl, rfl⟩
    | misfit found => simp [hlead, throw, throwThe, MonadExceptOf.throw] at h
  · rintro ⟨front, hs, rfl⟩
    rcases hs.lead with ⟨b, hlead, rfl⟩ | ⟨b, width, hlead, hn, rfl⟩
    · refine ⟨b, rest, (Payload.reads_readByte _ _ _).mpr ⟨_, rfl, rfl⟩, ?_⟩
      simp only [hlead]
      rfl
    · refine ⟨b, Bytes.littleEndian width n ++ rest,
        (Payload.reads_readByte _ _ _).mpr ⟨_, rfl, rfl⟩, ?_⟩
      simp only [hlead, Except.bind_eq_ok_iff, Prod.exists]
      refine ⟨_, rest, (Payload.reads_readBytes _ _ _ _).mpr
        ⟨_, ⟨rfl, Bytes.length_littleEndian width n⟩, rfl⟩, ?_⟩
      rw [Bytes.toNat_littleEndian hn]
      rfl

/-- No spelling is shorter than the one that is written, and no other is as short. -/
theorem Spells.undercut {quantity : Quantity} {n : Nat} {bytes : Bytes}
    (h : Spells quantity n bytes) : (write n).Undercuts bytes := by
  unfold write Bytes.Undercuts
  cases h with
  | value small => simp [small]
  | two fits => split <;> simp_all [Bytes.length_littleEndian]
  | four fits => repeat' split <;> simp_all [Bytes.length_littleEndian]
  | eight count fits => repeat' split <;> simp_all [Bytes.length_littleEndian]

end Varint

end MacroAtlas
