import MacroAtlas.Fingerprint

/-!
# Names of expansion files

A `FileName` is the key of a stored record: one component of a path that never looks like a
temporary file. The canonical name of an expansion starts with the digits of its fingerprint and an
underscore.
-/

namespace MacroAtlas

/-- How the names of temporary files start. -/
def temporaryMark : List Char := ".tmp-".toList

/-- A text that may name an expansion file: not empty, no dots alone, no separator or zero byte, and
no temporary file. -/
def FileName.Allowed (name : List Char) : Prop :=
  name ≠ [] ∧ name ≠ ['.'] ∧ name ≠ ['.', '.'] ∧ '/' ∉ name ∧ '\\' ∉ name ∧ '\x00' ∉ name ∧
    ¬ temporaryMark <+: name

instance (name : List Char) : Decidable (FileName.Allowed name) := by
  unfold FileName.Allowed; infer_instance

/-- The name of an expansion file. -/
structure FileName where
  /-- The text of the name. -/
  text : String
  /-- The text may name an expansion file. -/
  allowed : FileName.Allowed text.toList
  deriving DecidableEq

namespace FileName

/-- The name with a given text, if the text is allowed. -/
def ofText? (text : String) : Option FileName :=
  if h : Allowed text.toList then some ⟨text, h⟩ else none

/-- A name is read from its own text and from no other. -/
theorem ofText?_eq_some_iff {text : String} {file : FileName} :
    ofText? text = some file ↔ text = file.text := by
  unfold ofText?
  constructor
  · intro h
    split at h
    · exact congrArg FileName.text (Option.some.inj h)
    · cases h
  · rintro rfl
    rw [dif_pos file.allowed]

/-- Names are ordered by their texts, which is the order of their bytes in UTF-8. -/
instance : Ord FileName where
  compare a b := compare a.text b.text

instance : Std.TransOrd FileName where
  eq_swap := Std.OrientedOrd.eq_swap (α := String)
  isLE_trans := Std.TransOrd.isLE_trans (α := String)

instance : Std.LawfulEqOrd FileName where
  compare_self := Std.ReflOrd.compare_self (α := String)
  eq_of_compare {a b} h := by
    obtain ⟨_, _⟩ := a
    obtain ⟨_, _⟩ := b
    congr
    exact Std.LawfulEqOrd.eq_of_compare (α := String) h

/-- The order of names as a test. -/
def le (a b : FileName) : Bool := (compare a b).isLE

theorem le_trans (a b c : FileName) (hab : a.le b = true) (hbc : b.le c = true) :
    a.le c = true := by
  have hle : (compare a c).isLE = true := Std.TransCmp.isLE_trans hab hbc
  exact hle

theorem le_total (a b : FileName) : (a.le b || b.le a) = true := by
  have hswap : compare b a = (compare a b).swap := Std.OrientedCmp.eq_swap
  cases hab : compare a b <;> simp [le, hswap, hab]

/-- What separates the fingerprint from the rest of a name. -/
def delimiter : Char := '_'

/-- What follows the fingerprint in a canonical name. -/
def canonicalEnding : List Char := delimiter :: "expansion.rs".toList

/-- No digit has a meaning in paths. -/
private theorem digit_not_special : ∀ n < 16, Hex.digit n ∉ ['.', '/', '\\', '\x00'] := by
  decide

/-- The digits of a fingerprint followed by the canonical ending may name an expansion file. -/
theorem allowed_canonical (f : Fingerprint) : Allowed (f.digits ++ canonicalEnding) := by
  have ordinary : ∀ c ∈ f.digits, c ∉ ['.', '/', '\\', '\x00'] := by
    intro c hc
    obtain ⟨n, hn, rfl⟩ := Hex.exists_digit_of_mem_encode hc
    exact digit_not_special n hn
  have length : f.digits.length = 32 := by
    simp [Fingerprint.digits, Digest.digits, Hex.length_encode, f.digest.length_eq]
  obtain ⟨c, rest, hd⟩ : ∃ c rest, f.digits = c :: rest := by
    cases hd : f.digits with
    | nil => simp [hd] at length
    | cons c rest => exact ⟨c, rest, rfl⟩
  have first : c ≠ '.' := fun h => by
    have := ordinary c (by simp [hd])
    simp [h] at this
  have ending :
      canonicalEnding = ['_', 'e', 'x', 'p', 'a', 'n', 's', 'i', 'o', 'n', '.', 'r', 's'] := by
    decide
  have absent : ∀ x ∈ ['/', '\\', '\x00'], x ∉ f.digits ++ canonicalEnding := by
    intro x hx hmem
    rcases List.mem_append.1 hmem with h | h
    · exact ordinary x h (List.mem_cons_of_mem _ hx)
    · rw [ending] at h
      simp only [List.mem_cons, List.not_mem_nil, or_false] at hx
      rcases hx with rfl | rfl | rfl <;> simp at h
  refine ⟨by simp [hd], ?_, ?_, absent _ (by simp), absent _ (by simp), absent _ (by simp), ?_⟩
  · simp [hd, first]
  · simp [hd, first]
  · rw [hd, List.cons_append]
    rintro ⟨_, h⟩
    exact first (List.cons.inj h).1.symm

/-- The canonical name of the expansion with a fingerprint. -/
def ofFingerprint (f : Fingerprint) : FileName where
  text := String.ofList (f.digits ++ canonicalEnding)
  allowed := by simpa using allowed_canonical f

/-- The fingerprint in front of the last delimiter of a name, if the name starts with one. -/
def fingerprint? (name : FileName) : Option Fingerprint :=
  match name.text.toList.reverse.dropWhile (· ≠ delimiter) with
  | [] => none
  | _ :: front => Fingerprint.ofDigits? front.reverse

/-- A name with what it names. -/
def label (name : FileName) : String := s!"ExpansionFile({name.text})"

end FileName

end MacroAtlas
