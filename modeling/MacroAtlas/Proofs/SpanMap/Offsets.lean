import Mathlib.Data.List.Basic
import MacroAtlas.Proofs.SpanMap.Coverage

/-!
# Offsets

The look-ups of a single offset ask with a caret, which only literal links around it carry over to
the other side. It gets the starts of what the next byte gets. A carried offset comes back into the
target that it left, and no later.
-/

namespace MacroAtlas

/-- A literal link around an offset carries it over to its other side. -/
structure Carries (origin image : Span) (literal : Bool) (offset carried : UInt32) : Prop where
  /-- The link is literal. -/
  verbatim : literal = true
  /-- The offset lies in the side that is asked. -/
  inside : origin.start ≤ offset ∧ offset < origin.stop
  /-- The image is rounded down. -/
  exact : carried.toNat = imageDown origin image offset

/-- A caret gets what the link carries over. -/
theorem share_caret_iff {origin image answer : Span} {literal : Bool} {offset : UInt32} :
    Share origin image literal (.caret offset) answer ↔
      ∃ carried, Carries origin image literal offset carried ∧ answer = .caret carried := by
  constructor
  · intro hs
    cases hs with
    | whole proper _ => exact absurd rfl proper
    | slice _ proper _ _ _ _ => exact absurd rfl proper
    | caret verbatim _ inside exact => exact ⟨_, ⟨verbatim, inside, exact⟩, rfl⟩
  · rintro ⟨carried, ⟨verbatim, inside, exact⟩, rfl⟩
    exact .caret verbatim rfl inside exact

namespace Carries

variable {origin image : Span} {literal : Bool} {offset carried : UInt32}
  (hc : Carries origin image literal offset carried) (h : Copied origin image)

include hc h

/-- A carried offset lies in the other side. -/
theorem within : image.start ≤ carried ∧ carried < image.stop := by
  rw [UInt32.le_iff_toNat_le, UInt32.lt_iff_toNat_lt, hc.exact]
  exact ⟨le_imageDown, imageDown_lt h.image_lt hc.inside.1 hc.inside.2⟩

/-- A carried offset is carried back, to where it was or to the front of that. -/
theorem exists_back : ∃ back, Carries image origin literal carried back ∧ back ≤ offset := by
  obtain ⟨hstart, hstop⟩ := hc.within h
  have hword := toNat_projectDown (UInt32.le_of_lt h.origin_lt) h.image_lt hstart
    (UInt32.le_of_lt hstop)
  refine ⟨projectDown image origin carried, ⟨hc.verbatim, ⟨hstart, hstop⟩, hword⟩, ?_⟩
  rw [UInt32.le_iff_toNat_le, hword]
  exact imageDown_le_of_imageDown h.image_lt hc.inside.1 hc.exact

/-- Between sides of one length an offset is carried back to where it was. -/
theorem symm (hlength : origin.length = image.length) :
    Carries image origin literal carried offset := by
  have heq := h.toNat_length_eq hlength
  refine ⟨hc.verbatim, hc.within h, ?_⟩
  have hexact := hc.exact
  have hstart := UInt32.le_iff_toNat_le.mp hc.inside.1
  rw [imageDown_of_length_eq h.origin_lt heq] at hexact
  rw [imageDown_of_length_eq h.image_lt heq.symm, hexact]
  omega

end Carries

private theorem toNat_next {offset : UInt32} (hroom : offset.toNat + 1 < UInt32.size) :
    (offset + 1).toNat = offset.toNat + 1 := by
  rw [UInt32.toNat_add]
  exact Nat.mod_eq_of_lt hroom

/-- The byte behind an offset is cut out of a span as a whole, if the offset lies in the span. -/
theorem Span.intersect?_next {s cut : Span} {offset : UInt32}
    (hroom : offset.toNat + 1 < UInt32.size) :
    s.intersect? ⟨offset, offset + 1⟩ = some cut ↔
      (s.start ≤ offset ∧ offset < s.stop) ∧ cut = ⟨offset, offset + 1⟩ := by
  obtain ⟨start, stop⟩ := cut
  simp only [intersect?_eq_some_iff, mk.injEq, ← UInt32.toNat_inj, UInt32.le_iff_toNat_le,
    UInt32.lt_iff_toNat_lt, toNat_max, toNat_min, toNat_next hroom]
  omega

/-- What a caret gets starts at the offset that the link carries over. -/
theorem exists_share_caret_iff {origin image : Span} {literal : Bool} {offset carried : UInt32} :
    (∃ answer, Share origin image literal (.caret offset) answer ∧ answer.start = carried) ↔
      Carries origin image literal offset carried := by
  simp only [share_caret_iff]
  constructor
  · rintro ⟨_, ⟨_, hc, rfl⟩, rfl⟩
    exact hc
  · intro hc
    exact ⟨.caret carried, ⟨carried, hc, rfl⟩, rfl⟩

namespace Copied

variable {origin image : Span} {offset carried : UInt32} (h : Copied origin image)
  (hroom : offset.toNat + 1 < UInt32.size)

include h hroom

/-- What the byte behind an offset gets starts at the offset that the link carries over. -/
theorem exists_share_next_iff :
    (∃ answer, Share origin image true ⟨offset, offset + 1⟩ answer ∧ answer.start = carried) ↔
      Carries origin image true offset carried := by
  have hne : offset ≠ offset + 1 := by
    intro heq
    have hnumber := congrArg UInt32.toNat heq
    rw [toNat_next hroom] at hnumber
    omega
  constructor
  · rintro ⟨answer, hs, rfl⟩
    obtain ⟨cut, hcut, hstart, -⟩ := (h.share_iff hne).mp hs
    obtain ⟨hinside, rfl⟩ := (Span.intersect?_next hroom).mp hcut
    exact ⟨rfl, hinside, hstart⟩
  · intro hc
    have hcut := (Span.intersect?_next hroom).mpr ⟨hc.inside, rfl⟩
    obtain ⟨answer, hs, hstart, -⟩ := h.exists_share hcut
    exact ⟨answer, hs, UInt32.toNat_inj.mp (hstart.trans hc.exact.symm)⟩

/-- A literal link answers a caret with the start of what it answers to the next byte. -/
theorem map_start_project_next :
    (project origin image true ⟨offset, offset + 1⟩).map (·.start) =
      (project origin image true (.caret offset)).map (·.start) := by
  ext carried
  simp only [Option.map_eq_some_iff, project_eq_some_iff h.projectable, exists_share_caret_iff,
    h.exists_share_next_iff hroom]

end Copied

namespace SpanMap

variable (m : SpanMap) {offset carried : UInt32}

/-- On literal links a caret gets the starts of what the next byte gets, in both directions. -/
theorem map_start_answers_next (d : Direction) (hv : ∀ l ∈ m.links.toList, l.literal = true)
    (hroom : offset.toNat + 1 < UInt32.size) :
    (m.answers d ⟨offset, offset + 1⟩).map (·.start) =
      (m.answers d (.caret offset)).map (·.start) := by
  rw [answers_eq, answers_eq, List.map_filterMap, List.map_filterMap]
  apply List.filterMap_congr
  intro l hl
  rw [hv l hl]
  exact (d.copied (m.proper_of_mem hl) (hv l hl)).map_start_project_next hroom

/-- A caret gets the offsets that the links carry over. -/
theorem mem_map_start_iff (d : Direction) :
    carried ∈ (m.answers d (.caret offset)).map (·.start) ↔
      ∃ l ∈ m.links.toList, Carries (d.origin l) (d.image l) l.literal offset carried := by
  simp only [List.mem_map, mem_answers_iff, ← exists_share_caret_iff]
  constructor
  · rintro ⟨answer, ⟨l, hl, hs⟩, hstart⟩
    exact ⟨l, hl, answer, hs, hstart⟩
  · rintro ⟨l, hl, answer, hs, hstart⟩
    exact ⟨answer, ⟨l, hl, hs⟩, hstart⟩

/-- A caret in the expansion has at most one answer, and the look-up of its offset finds it. -/
theorem toList_offsetToSource? (offset : UInt32) :
    (m.offsetToSource? offset).toList = (m.answers .toSource (.caret offset)).map (·.start) := by
  have hfound : ∃ found : Option Span, m.toSource (.caret offset) = found.toList :=
    ⟨_, if_pos (Span.isEmpty_iff.mpr rfl)⟩
  obtain ⟨found, hfound⟩ := hfound
  rw [answers, offsetToSource?, hfound]
  cases found <;> rfl

theorem offsetToSource?_eq_some_iff : m.offsetToSource? offset = some carried ↔
    ∃ l ∈ m.links.toList, Carries l.target l.source l.literal offset carried := by
  rw [← Option.mem_toList, toList_offsetToSource?]
  exact m.mem_map_start_iff .toSource

theorem mem_offsetToTarget_iff : carried ∈ m.offsetToTarget offset ↔
    ∃ l ∈ m.links.toList, Carries l.source l.target l.literal offset carried :=
  m.mem_map_start_iff .toTarget

/-- On literal links the look-ups of an offset give the starts of what the byte behind it gets. -/
theorem carets_agree_with_bytes (m : SpanMap) (hv : ∀ l ∈ m.links.toList, l.literal = true)
    {offset : UInt32} (hroom : offset < 4294967295) :
    (∀ carried, m.offsetToSource? offset = some carried ↔
      ∃ answer, m.toSource ⟨offset, offset + 1⟩ = [answer] ∧ answer.start = carried) ∧
    (m.offsetToSource? offset = none ↔ m.toSource ⟨offset, offset + 1⟩ = []) ∧
    m.offsetToTarget offset = (m.toTarget ⟨offset, offset + 1⟩).map (·.start) := by
  have hsize : offset.toNat + 1 < UInt32.size := by
    have hlt : offset.toNat < 4294967295 := UInt32.lt_iff_toNat_lt.mp hroom
    exact Nat.succ_lt_succ hlt
  have hsource : (m.toSource ⟨offset, offset + 1⟩).map (·.start) =
      (m.offsetToSource? offset).toList := by
    rw [toList_offsetToSource?]
    exact m.map_start_answers_next .toSource hv hsize
  refine ⟨fun carried => ?_, ?_, ?_⟩
  · rw [← Option.toList_eq_singleton_iff, ← hsource, List.map_eq_singleton_iff]
  · rw [← Option.toList_eq_nil_iff, ← hsource, List.map_eq_nil_iff]
  · exact (m.map_start_answers_next .toTarget hv hsize).symm

/-- Copies of one source at five halves and at one, and the last byte of the first target. -/
theorem carets_agree_with_bytes_stretched :
    let m : SpanMap := ⟨#[⟨⟨0, 5⟩, ⟨3, 5⟩, true⟩, ⟨⟨5, 7⟩, ⟨3, 5⟩, true⟩], _, by decide, rfl⟩
    (∀ l ∈ m.links.toList, l.literal = true) ∧ (4 : UInt32) < 4294967295 ∧
      m.offsetToSource? 4 = some 4 ∧ (∃ answer, m.toSource ⟨4, 5⟩ = [answer] ∧ answer.start = 4) ∧
        m.offsetToTarget 4 = (m.toTarget ⟨4, 5⟩).map (·.start) := by
  intro m
  have hliteral : ∀ l ∈ m.links.toList, l.literal = true := by decide
  have hfound : m.offsetToSource? 4 = some 4 :=
    m.offsetToSource?_eq_some_iff.mpr
      ⟨⟨⟨0, 5⟩, ⟨3, 5⟩, true⟩, by decide, rfl, by decide, by decide⟩
  have hroom : (4 : UInt32) < 4294967295 := by decide
  obtain ⟨hsource, -, htarget⟩ := carets_agree_with_bytes m hliteral hroom
  exact ⟨hliteral, hroom, hfound, (hsource 4).mp hfound, htarget⟩

/-- On links with sides of one length the two look-ups are converse; in any case an offset comes
back in its target. -/
theorem offset_lookups_converse (m : SpanMap) :
    ((∀ l ∈ m.links.toList, l.literal = true → l.target.length = l.source.length) →
      ∀ offset carried, m.offsetToSource? offset = some carried ↔
        offset ∈ m.offsetToTarget carried) ∧
    ∀ offset carried, m.offsetToSource? offset = some carried →
      ∃ back ∈ m.offsetToTarget carried, back ≤ offset ∧
        ∃ l ∈ m.links.toList, l.target.contains offset = true ∧ l.target.contains back = true := by
  have hcopied : ∀ l ∈ m.links.toList, l.literal = true → Copied l.target l.source :=
    fun l hl hv => (m.proper_of_mem hl).copied hv
  constructor
  · intro hlength offset carried
    rw [offsetToSource?_eq_some_iff, mem_offsetToTarget_iff]
    refine exists_congr fun l => and_congr_right fun hl => ⟨fun hc => ?_, fun hc => ?_⟩
    · exact hc.symm (hcopied l hl hc.verbatim) (hlength l hl hc.verbatim)
    · exact hc.symm (hcopied l hl hc.verbatim).symm (hlength l hl hc.verbatim).symm
  · intro offset carried hfound
    obtain ⟨l, hl, hc⟩ := m.offsetToSource?_eq_some_iff.mp hfound
    have hsides := hcopied l hl hc.verbatim
    obtain ⟨back, hback, hle⟩ := hc.exists_back hsides
    refine ⟨back, m.mem_offsetToTarget_iff.mpr ⟨l, hl, hback⟩, hle, l, hl, ?_, ?_⟩
    · exact Span.contains_iff.mpr hc.inside
    · exact Span.contains_iff.mpr (hback.within hsides.symm)

/-- Two copies share a part of their source, and at one half an odd offset comes back in front of
where it was. -/
theorem offset_lookups_converse_overlapping :
    let verbatim : SpanMap := ⟨#[⟨⟨0, 4⟩, ⟨3, 7⟩, true⟩, ⟨⟨4, 9⟩, ⟨5, 6⟩, false⟩,
      ⟨⟨9, 11⟩, ⟨5, 7⟩, true⟩], _, by decide, rfl⟩
    let halved : SpanMap := ⟨#[⟨⟨0, 10⟩, ⟨0, 5⟩, true⟩], _, by decide, rfl⟩
    (∀ l ∈ verbatim.links.toList, l.literal = true → l.target.length = l.source.length) ∧
      (verbatim.offsetToSource? 10 = some 6 ↔ 10 ∈ verbatim.offsetToTarget 6) ∧
        halved.offsetToSource? 7 = some 3 ∧
          ∃ back ∈ halved.offsetToTarget 3, back ≤ 7 ∧ ∃ l ∈ halved.links.toList,
            l.target.contains 7 = true ∧ l.target.contains back = true := by
  intro verbatim halved
  have hlength : ∀ l ∈ verbatim.links.toList,
      l.literal = true → l.target.length = l.source.length := by decide
  have hfound : halved.offsetToSource? 7 = some 3 :=
    halved.offsetToSource?_eq_some_iff.mpr
      ⟨⟨⟨0, 10⟩, ⟨0, 5⟩, true⟩, by decide, rfl, by decide, by decide⟩
  exact ⟨hlength, (offset_lookups_converse verbatim).1 hlength 10 6, hfound,
    (offset_lookups_converse halved).2 7 3 hfound⟩

end SpanMap

end MacroAtlas
