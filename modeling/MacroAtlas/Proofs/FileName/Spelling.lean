import Mathlib.Data.List.TakeWhile
import MacroAtlas.Proofs.Digest.Utf8

/-!
# What names tell

A name tells a fingerprint exactly when it starts with its digits and these are followed by the last
delimiter of the name. Canonical names are among these; they are never refused as names, and no two
fingerprints share one.
-/

namespace MacroAtlas

namespace FileName

/-- A character that occurs has a last occurrence. -/
private theorem exists_last_of_mem {c : Char} {chars : List Char} (h : c ∈ chars) :
    ∃ front rest, chars = front ++ c :: rest ∧ c ∉ rest := by
  obtain ⟨rest, front, hsplit, hrest⟩ := List.eq_append_cons_of_mem (List.mem_reverse.mpr h)
  refine ⟨front.reverse, rest.reverse, ?_, fun hmem => hrest (List.mem_reverse.mp hmem)⟩
  rw [← List.reverse_reverse chars, hsplit, List.reverse_append, List.reverse_cons,
    List.append_assoc, List.singleton_append]

/-- A name without a delimiter tells nothing. -/
theorem fingerprint?_eq_none {name : FileName} (h : delimiter ∉ name.text.toList) :
    name.fingerprint? = none := by
  have hpass : ∀ c ∈ name.text.toList.reverse, decide (c ≠ delimiter) = true := by
    intro c hc
    rw [decide_eq_true_eq]
    rintro rfl
    exact h (List.mem_reverse.mp hc)
  have hdrop : name.text.toList.reverse.dropWhile (· ≠ delimiter) = [] := by
    rw [List.dropWhile_eq_nil_iff]
    exact hpass
  rw [fingerprint?, hdrop]

/-- A name tells the fingerprint whose digits it starts with, if they are followed by the last
delimiter. -/
theorem fingerprint?_eq_some_iff {name : FileName} {f : Fingerprint} :
    name.fingerprint? = some f ↔
      ∃ rest, name.text.toList = f.digits ++ delimiter :: rest ∧ delimiter ∉ rest := by
  constructor
  · intro h
    by_cases hmem : delimiter ∈ name.text.toList
    · obtain ⟨front, rest, hsplit, hrest⟩ := exists_last_of_mem hmem
      rw [fingerprint?_eq_of_toList_eq hsplit hrest, Fingerprint.ofDigits?_eq_some_iff] at h
      exact ⟨rest, h ▸ hsplit, hrest⟩
    · rw [fingerprint?_eq_none hmem] at h
      cases h
  · rintro ⟨rest, hsplit, hrest⟩
    rw [fingerprint?_eq_of_toList_eq hsplit hrest, Fingerprint.ofDigits?_digits]

/-- A text that starts with the digits of a fingerprint and a delimiter. -/
private theorem toList_eq_iff {text : String} {f : Fingerprint} {rest : List Char} :
    text.toList = f.digits ++ delimiter :: rest ↔ text = f.text ++ "_" ++ String.ofList rest := by
  rw [← f.toList_text, ← String.toList_inj]
  simp [delimiter]

theorem text_ofFingerprint (f : Fingerprint) :
    (ofFingerprint f).text = f.text ++ "_expansion.rs" := by
  have hending : canonicalEnding = "_expansion.rs".toList := by decide
  rw [← String.toList_inj, String.toList_append, f.toList_text, ← hending]
  exact String.toList_ofList

/-- A digest is read off its own text alone, and a name tells a fingerprint exactly when it is
spelled as its canonical one. -/
theorem names_tell_fingerprints :
    (∀ (text : String) (d : Digest), (Digest.ofText? text = some d ↔ text = d.text) ∧
      (Digest.ofUtf8? (Bytes.ofText text) = some d ↔ text = d.text)) ∧
    (∀ (name : FileName) (f : Fingerprint), name.fingerprint? = some f ↔
      ∃ ending : String, name.text = f.text ++ "_" ++ ending ∧ '_' ∉ ending.toList) ∧
    (∀ f : Fingerprint, ofText? (f.text ++ "_expansion.rs") = some (ofFingerprint f) ∧
      (ofFingerprint f).fingerprint? = some f) ∧
    ∀ f g : Fingerprint, ofFingerprint f = ofFingerprint g ↔ f = g := by
  refine ⟨fun text d => ?_, fun name f => ?_, fun f => ?_, fun f g => ?_⟩
  · rw [Digest.ofUtf8?_ofText]
    exact ⟨Digest.ofText?_eq_some_iff, Digest.ofText?_eq_some_iff⟩
  · rw [fingerprint?_eq_some_iff]
    constructor
    · rintro ⟨rest, hsplit, hrest⟩
      exact ⟨String.ofList rest, toList_eq_iff.mp hsplit, by rwa [String.toList_ofList]⟩
    · rintro ⟨ending, htext, hending⟩
      rw [← String.ofList_toList (s := ending)] at htext
      exact ⟨ending.toList, toList_eq_iff.mpr htext, hending⟩
  · rw [← text_ofFingerprint]
    exact ⟨ofText?_eq_some_iff.mpr rfl, fingerprint?_ofFingerprint f⟩
  · exact ⟨ofFingerprint_injective, congrArg ofFingerprint⟩

end FileName

end MacroAtlas
