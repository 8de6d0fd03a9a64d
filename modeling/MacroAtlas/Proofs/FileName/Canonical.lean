import MacroAtlas.FileName

/-!
# Canonical names

Digits of bytes are read back as the same bytes, so the canonical name of an expansion gives its
fingerprint back, and different fingerprints have different canonical names.
-/

namespace MacroAtlas

namespace Hex

/-- Each digit is read as its number. -/
theorem value?_digit_of_lt : ∀ n < 16, value? (digit n) = some n := by
  decide

/-- Bytes written in hexadecimal are read back. -/
@[simp] theorem decode?_encode (bytes : Bytes) : decode? (encode bytes) = some bytes := by
  induction bytes with
  | nil => rfl
  | cons b rest ih =>
      have hb := b.toNat_lt
      have hhigh : b.toNat / 16 < 16 := by omega
      have hlow : b.toNat % 16 < 16 := by omega
      have hjoin : 16 * (b.toNat / 16) + b.toNat % 16 = b.toNat := by omega
      rw [encode] at ih
      simp only [encode, List.flatMap_cons, ofByte, List.cons_append, List.nil_append, decode?,
        value?_digit_of_lt _ hhigh, value?_digit_of_lt _ hlow, ih, Option.bind_eq_bind,
        Option.bind_some, hjoin, UInt8.ofNat_toNat, Option.pure_def]

end Hex

@[simp] theorem Digest.ofDigits?_digits (d : Digest) : ofDigits? d.digits = some d := by
  simp [ofDigits?, digits, ofBytes?, d.length_eq]

@[simp] theorem Fingerprint.ofDigits?_digits (f : Fingerprint) : ofDigits? f.digits = some f := by
  simp [ofDigits?, digits]

namespace FileName

/-- The fingerprint of a name is spelled in front of its last delimiter. -/
theorem fingerprint?_eq_of_toList_eq {name : FileName} {front rest : List Char}
    (ht : name.text.toList = front ++ delimiter :: rest) (hr : delimiter ∉ rest) :
    name.fingerprint? = Fingerprint.ofDigits? front := by
  have hpass : ∀ c ∈ rest.reverse, (decide (c ≠ delimiter)) = true := by
    intro c hc
    simp only [decide_eq_true_eq]
    rintro rfl
    exact hr (List.mem_reverse.mp hc)
  have hdrop : name.text.toList.reverse.dropWhile (· ≠ delimiter) =
      delimiter :: front.reverse := by
    rw [ht, List.reverse_append, List.reverse_cons, List.append_assoc,
      List.dropWhile_append_of_pos hpass]
    simp
  rw [fingerprint?, hdrop]
  simp only [List.reverse_reverse]

/-- A canonical name carries the fingerprint that it was made from. -/
@[simp] theorem fingerprint?_ofFingerprint (f : Fingerprint) :
    (ofFingerprint f).fingerprint? = some f := by
  have ht : (ofFingerprint f).text.toList = f.digits ++ delimiter :: "expansion.rs".toList := by
    simp [ofFingerprint, canonicalEnding]
  rw [fingerprint?_eq_of_toList_eq ht (by decide), Fingerprint.ofDigits?_digits]

/-- No two fingerprints share a canonical name. -/
theorem ofFingerprint_injective {f g : Fingerprint} (h : ofFingerprint f = ofFingerprint g) :
    f = g := by
  have hf := fingerprint?_ofFingerprint f
  rw [h, fingerprint?_ofFingerprint] at hf
  exact (Option.some.inj hf).symm

end FileName

end MacroAtlas
