import MacroAtlas.Proofs.FileName.Canonical

/-!
# How fingerprints are spelled

Reading hexadecimal accepts nothing but what writing gives: a list of characters spells bytes
exactly when it is a list of pairs of digits. So 32 lowercase digits are always the text of one
fingerprint.
-/

namespace MacroAtlas

namespace Hex

/-- The digits of hexadecimal. -/
def alphabet : List Char := "0123456789abcdef".toList

/-- The alphabet is the sixteen digits in order of value. -/
theorem alphabet_eq : alphabet = (List.range 16).map digit := by decide

private theorem ofNat_add_sub {first c : Char} (h : first ≤ c) :
    Char.ofNat (first.toNat + (c.toNat - first.toNat)) = c := by
  have hle : first.toNat ≤ c.toNat := h
  rw [Nat.add_sub_cancel' hle, Char.ofNat_toNat]

/-- A character with a value is the digit of this value. -/
theorem value?_eq_some_iff {c : Char} {n : Nat} : value? c = some n ↔ n < 16 ∧ c = digit n := by
  constructor
  · intro h
    unfold value? at h
    split at h
    · next hc =>
        obtain rfl := Option.some.inj h
        have hhigh : c.toNat ≤ 57 := hc.2
        have hten : c.toNat - '0'.toNat < 10 := by
          change c.toNat - 48 < 10
          omega
        refine ⟨by omega, ?_⟩
        rw [digit, if_pos hten, ofNat_add_sub hc.1]
    · split at h
      · next hc =>
          obtain rfl := Option.some.inj h
          have hhigh : c.toNat ≤ 102 := hc.2
          have hsix : c.toNat - 'a'.toNat < 6 := by
            change c.toNat - 97 < 6
            omega
          refine ⟨by omega, ?_⟩
          rw [digit, if_neg (by omega), Nat.add_sub_cancel, ofNat_add_sub hc.1]
      · cases h
  · rintro ⟨hn, rfl⟩
    exact value?_digit_of_lt n hn

/-- The spelling of a byte string is the only one. -/
theorem decode?_eq_some_iff {digits : List Char} {bytes : Bytes} :
    decode? digits = some bytes ↔ digits = encode bytes := by
  constructor
  · intro h
    induction digits using decode?.induct generalizing bytes with
    | case1 =>
        obtain rfl := Option.some.inj h
        rfl
    | case2 c => cases h
    | case3 high low rest ih =>
        simp only [decode?, Option.bind_eq_bind, Option.bind_eq_some_iff] at h
        obtain ⟨n, hn, k, hk, others, hothers, hbytes⟩ := h
        obtain ⟨hn, rfl⟩ := value?_eq_some_iff.mp hn
        obtain ⟨hk, rfl⟩ := value?_eq_some_iff.mp hk
        obtain rfl := Option.some.inj hbytes
        obtain rfl := ih hothers
        have hbyte : (UInt8.ofNat (16 * n + k)).toNat = 16 * n + k := by
          rw [UInt8.toNat_ofNat']
          exact Nat.mod_eq_of_lt (by omega)
        have hhigh : (16 * n + k) / 16 = n := by omega
        have hlow : (16 * n + k) % 16 = k := by omega
        simp only [encode, List.flatMap_cons, ofByte, hbyte, hhigh, hlow, List.cons_append,
          List.nil_append]
  · rintro rfl
    exact decode?_encode bytes

/-- Pairs of digits spell a byte string. -/
theorem exists_encode {digits : List Char} (heven : digits.length % 2 = 0)
    (hdigits : ∀ c ∈ digits, c ∈ alphabet) : ∃ bytes, digits = encode bytes := by
  induction digits using decode?.induct with
  | case1 => exact ⟨[], rfl⟩
  | case2 c => cases heven
  | case3 high low rest ih =>
      have hvalue : ∀ c ∈ high :: low :: rest, ∃ n, n < 16 ∧ c = digit n := by
        intro c hc
        have hmem := hdigits c hc
        rw [alphabet_eq] at hmem
        obtain ⟨n, hn, rfl⟩ := List.mem_map.mp hmem
        exact ⟨n, List.mem_range.mp hn, rfl⟩
      obtain ⟨n, hn, rfl⟩ := hvalue high List.mem_cons_self
      obtain ⟨k, hk, rfl⟩ := hvalue low (List.mem_cons_of_mem _ List.mem_cons_self)
      have hrest : rest.length % 2 = 0 := by
        simp only [List.length_cons] at heven
        omega
      obtain ⟨others, rfl⟩ := ih hrest fun c hc =>
        hdigits c (List.mem_cons_of_mem _ (List.mem_cons_of_mem _ hc))
      refine ⟨UInt8.ofNat (16 * n + k) :: others, decode?_eq_some_iff.mp ?_⟩
      simp only [decode?, value?_digit_of_lt n hn, value?_digit_of_lt k hk, decode?_encode,
        Option.bind_eq_bind, Option.bind_some, Option.pure_def]

end Hex

namespace Digest

theorem ofBytes?_eq_some_iff {bytes : Bytes} {d : Digest} :
    ofBytes? bytes = some d ↔ bytes = d.bytes := by
  unfold ofBytes?
  constructor
  · intro h
    split at h
    · exact congrArg Digest.bytes (Option.some.inj h)
    · cases h
  · rintro rfl
    rw [dif_pos d.length_eq]

theorem ofDigits?_eq_some_iff {digits : List Char} {d : Digest} :
    ofDigits? digits = some d ↔ digits = d.digits := by
  simp only [ofDigits?, Option.bind_eq_some_iff, ofBytes?_eq_some_iff, Hex.decode?_eq_some_iff,
    Digest.digits, exists_eq_right]

theorem toList_text (d : Digest) : d.text.toList = d.digits := String.toList_ofList

/-- The text of a digest is the only one that is read as it. -/
theorem ofText?_eq_some_iff {text : String} {d : Digest} :
    ofText? text = some d ↔ text = d.text := by
  rw [ofText?, ofDigits?_eq_some_iff, ← toList_text, String.toList_inj]

end Digest

namespace Fingerprint

theorem ofDigits?_eq_some_iff {digits : List Char} {f : Fingerprint} :
    ofDigits? digits = some f ↔ digits = f.digits := by
  rw [ofDigits?, Option.map_eq_some_iff]
  constructor
  · rintro ⟨d, hd, rfl⟩
    exact Digest.ofDigits?_eq_some_iff.mp hd
  · rintro rfl
    exact ⟨f.digest, Digest.ofDigits?_digits f.digest, rfl⟩

theorem toList_text (f : Fingerprint) : f.text.toList = f.digits := f.digest.toList_text

/-- The text of a fingerprint is the only one that is read as it. -/
theorem ofText?_eq_some_iff {text : String} {f : Fingerprint} :
    ofText? text = some f ↔ text = f.text := by
  rw [ofText?, ofDigits?_eq_some_iff, ← toList_text, String.toList_inj]

/-- No two fingerprints are spelled alike. -/
theorem text_injective {f g : Fingerprint} (h : f.text = g.text) : f = g := by
  have hf : ofText? g.text = some f := ofText?_eq_some_iff.mpr h.symm
  rw [ofText?_eq_some_iff.mpr rfl] at hf
  exact (Option.some.inj hf).symm

/-- The text consists of 32 lowercase digits. -/
def Spelled (text : String) : Prop :=
  text.toList.length = 32 ∧ ∀ c ∈ text.toList, c ∈ Hex.alphabet

/-- Exactly these texts are read as fingerprints. -/
theorem exists_ofText?_iff {text : String} : (∃ f, ofText? text = some f) ↔ Spelled text := by
  constructor
  · rintro ⟨f, hf⟩
    obtain rfl := ofText?_eq_some_iff.mp hf
    rw [Spelled, Fingerprint.text, Digest.text, String.toList_ofList]
    refine ⟨?_, fun c hc => ?_⟩
    · rw [Digest.digits, Hex.length_encode, f.digest.length_eq]
    · obtain ⟨n, hn, rfl⟩ := Hex.exists_digit_of_mem_encode hc
      rw [Hex.alphabet_eq]
      exact List.mem_map_of_mem (List.mem_range.mpr hn)
  · rintro ⟨hlength, hdigits⟩
    obtain ⟨bytes, hbytes⟩ := Hex.exists_encode (by rw [hlength]) hdigits
    have hsixteen : bytes.length = 16 := by
      rw [hbytes, Hex.length_encode] at hlength
      omega
    refine ⟨⟨⟨bytes, hsixteen⟩⟩, ofText?_eq_some_iff.mpr ?_⟩
    rw [Fingerprint.text, Digest.text, Digest.digits, ← hbytes, String.ofList_toList]

/-- A fingerprint's own text is spelled as one. -/
theorem spelled_text (f : Fingerprint) : Spelled f.text :=
  exists_ofText?_iff.mp ⟨f, ofText?_eq_some_iff.mpr rfl⟩

/-- Well spelled texts are those of some fingerprints. -/
theorem exists_map_text {texts : List String} (h : ∀ text ∈ texts, Spelled text) :
    ∃ live : List Fingerprint, texts = live.map (·.text) := by
  induction texts with
  | nil => exact ⟨[], rfl⟩
  | cons first rest ih =>
      obtain ⟨hfirst, hrest⟩ := List.forall_mem_cons.mp h
      obtain ⟨f, hf⟩ := exists_ofText?_iff.mpr hfirst
      obtain ⟨live, rfl⟩ := ih hrest
      exact ⟨f :: live, by rw [List.map_cons, ofText?_eq_some_iff.mp hf]⟩

end Fingerprint

end MacroAtlas
