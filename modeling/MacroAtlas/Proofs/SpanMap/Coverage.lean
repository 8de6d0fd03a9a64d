import Mathlib.Data.Set.Basic
import MacroAtlas.Proofs.SpanMap.RoundTrip

/-!
# What answers cover

Each answer to a query lies in some answer to any query around it. On literal links the answers to
two parts of a query cover together what its own answers cover, because at the seam one part is
rounded up and the other down.
-/

namespace MacroAtlas

/-- The two directions in which a map is asked. -/
inductive Direction where
  /-- From the expansion to the call. -/
  | toSource
  /-- From the call to the expansion. -/
  | toTarget
  deriving DecidableEq, Repr

namespace Direction

/-- The side of a link that is asked. -/
def origin : Direction → Link → Span
  | toSource, l => l.target
  | toTarget, l => l.source

/-- The side of a link that answers. -/
def image : Direction → Link → Span
  | toSource, l => l.source
  | toTarget, l => l.target

variable (d : Direction) {l : Link}

theorem projectable (h : l.Proper) : Projectable (d.origin l) (d.image l) l.literal := by
  cases d with
  | toSource => exact h.toSource
  | toTarget => exact h.toTarget

theorem copied (h : l.Proper) (hl : l.literal = true) : Copied (d.origin l) (d.image l) := by
  cases d with
  | toSource => exact h.copied hl
  | toTarget => exact (h.copied hl).symm

end Direction

/-- The answers of a map to a query in one direction. -/
def SpanMap.answers (m : SpanMap) : Direction → Span → List Span
  | .toSource, query => m.toSource query
  | .toTarget, query => m.toTarget query

/-- The answers are those of all links in turn. -/
theorem SpanMap.answers_eq (m : SpanMap) (d : Direction) (query : Span) :
    m.answers d query =
      m.links.toList.filterMap fun l => project (d.origin l) (d.image l) l.literal query := by
  cases d with
  | toSource => exact m.toSource_eq_scanToSource query
  | toTarget => exact m.toTarget_eq_scanToTarget

/-- An answer is the share of some link. -/
theorem SpanMap.mem_answers_iff {m : SpanMap} {d : Direction} {query answer : Span} :
    answer ∈ m.answers d query ↔
      ∃ l ∈ m.links.toList, Share (d.origin l) (d.image l) l.literal query answer := by
  cases d with
  | toSource => exact m.mem_toSource_iff
  | toTarget => exact m.mem_toTarget_iff

section Image

variable {origin image : Span} {offset other : UInt32}

/-- Rounding down keeps the order of offsets. -/
theorem imageDown_mono (h : offset ≤ other) :
    imageDown origin image offset ≤ imageDown origin image other := by
  rw [UInt32.le_iff_toNat_le] at h
  have hshift : offset.toNat - origin.start.toNat ≤ other.toNat - origin.start.toNat := by omega
  exact Nat.add_le_add_left (Nat.div_le_div_right (Nat.mul_le_mul_right _ hshift)) _

/-- Rounding up keeps the order of offsets. -/
theorem imageUp_mono (h : offset ≤ other) :
    imageUp origin image offset ≤ imageUp origin image other := by
  rw [UInt32.le_iff_toNat_le] at h
  have hshift : offset.toNat - origin.start.toNat ≤ other.toNat - origin.start.toNat := by omega
  have hmul := Nat.mul_le_mul_right (image.stop.toNat - image.start.toNat) hshift
  exact Nat.add_le_add_left (Nat.div_le_div_right (Nat.add_le_add_right hmul _)) _

end Image

namespace Span

variable {s narrow wide cut : Span} {first middle last : UInt32}

/-- The common part does not depend on the order of the spans. -/
theorem intersect?_comm (s t : Span) : s.intersect? t = t.intersect? s := by
  ext cut
  simp only [intersect?_eq_some_iff, ← UInt32.toNat_inj, toNat_max, toNat_min]
  rw [Nat.max_comm, Nat.min_comm]

/-- What a query cuts out of a span lies in what any query around it cuts out. -/
theorem exists_intersect?_of_covers (h : s.intersect? narrow = some cut)
    (hw : wide.covers narrow = true) :
    ∃ wider, s.intersect? wide = some wider ∧ wider.start ≤ cut.start ∧ cut.stop ≤ wider.stop := by
  obtain ⟨hstart, hstop, hlt⟩ := intersect?_eq_some_iff.mp h
  obtain ⟨hbefore, hbehind⟩ := covers_iff.mp hw
  simp only [UInt32.le_iff_toNat_le, UInt32.lt_iff_toNat_lt] at hbefore hbehind hlt ⊢
  have hfrom : (max s.start wide.start).toNat ≤ cut.start.toNat := by
    rw [hstart, toNat_max, toNat_max]
    omega
  have hto : cut.stop.toNat ≤ (min s.stop wide.stop).toNat := by
    rw [hstop, toNat_min, toNat_min]
    omega
  refine ⟨⟨max s.start wide.start, min s.stop wide.stop⟩, ?_, hfrom, hto⟩
  refine intersect?_eq_some_iff.mpr ⟨rfl, rfl, ?_⟩
  rw [UInt32.lt_iff_toNat_lt]
  exact Nat.lt_of_le_of_lt hfrom (Nat.lt_of_lt_of_le hlt hto)

/-- What a query cuts out of a span is cut out by one of its two parts, or falls apart where the
query does. -/
theorem intersect?_of_seam (h : s.intersect? ⟨first, last⟩ = some cut) (hfirst : first < middle)
    (hlast : middle < last) :
    s.intersect? ⟨first, middle⟩ = some cut ∨ s.intersect? ⟨middle, last⟩ = some cut ∨
      cut.start ≤ middle ∧ middle ≤ cut.stop ∧
        s.intersect? ⟨first, middle⟩ = some ⟨cut.start, middle⟩ ∧
          s.intersect? ⟨middle, last⟩ = some ⟨middle, cut.stop⟩ := by
  simp only [intersect?_eq_some_iff, ← UInt32.toNat_inj, UInt32.le_iff_toNat_le,
    UInt32.lt_iff_toNat_lt, toNat_max, toNat_min] at h hfirst hlast ⊢
  by_cases hbehind : middle.toNat ≤ s.start.toNat
  · omega
  · by_cases hbefore : s.stop.toNat ≤ middle.toNat
    · omega
    · omega

end Span

/-- A link has one share in a query. -/
theorem Share.unique {origin image query answer other : Span} {literal : Bool}
    (h : Projectable origin image literal) (hs : Share origin image literal query answer)
    (hs' : Share origin image literal query other) : answer = other := by
  have hanswer := (project_eq_some_iff h).mpr hs
  rw [(project_eq_some_iff h).mpr hs'] at hanswer
  exact (Option.some.inj hanswer).symm

namespace Copied

variable {origin image query narrow wide answer : Span} {first middle last offset : UInt32}
  (h : Copied origin image)

include h

/-- A query that gets something from a literal link and is no caret cuts out a part of it. -/
theorem exists_intersect? (hne : query.start ≠ query.stop)
    (hs : Share origin image true query answer) : ∃ cut, origin.intersect? query = some cut := by
  cases hs with
  | whole _ covered =>
      refine ⟨origin, ?_⟩
      rw [Span.intersect?_comm]
      exact Span.intersect?_of_covers (Span.covers_iff.mpr covered) h.origin_lt
  | slice _ _ _ overlap _ _ =>
      exact ⟨⟨_, _⟩, Span.intersect?_eq_some_iff.mpr ⟨rfl, rfl, overlap⟩⟩
  | caret _ empty _ _ => exact absurd empty hne

/-- A literal link answers a query that is no caret with the slice of the part that is cut out. -/
theorem share_iff (hne : query.start ≠ query.stop) :
    Share origin image true query answer ↔
      ∃ cut, origin.intersect? query = some cut ∧
        answer.start.toNat = imageDown origin image cut.start ∧
        answer.stop.toNat = imageUp origin image cut.stop := by
  constructor
  · intro hs
    obtain ⟨cut, hcut⟩ := h.exists_intersect? hne hs
    obtain ⟨other, hother, hstart, hstop⟩ := h.exists_share hcut
    obtain rfl := hs.unique h.projectable hother
    exact ⟨cut, hcut, hstart, hstop⟩
  · rintro ⟨cut, hcut, hstart, hstop⟩
    obtain ⟨other, hother, hstart', hstop'⟩ := h.exists_share hcut
    have hsame : answer = other :=
      Span.eq_of_bounds (UInt32.toNat_inj.mp (hstart.trans hstart'.symm))
        (UInt32.toNat_inj.mp (hstop.trans hstop'.symm))
    exact hsame ▸ hother

/-- A wider query gets a wider slice. -/
theorem exists_share_of_covers (hne : narrow.start ≠ narrow.stop)
    (hw : wide.covers narrow = true) (hs : Share origin image true narrow answer) :
    ∃ wider, Share origin image true wide wider ∧ wider.covers answer = true := by
  obtain ⟨cut, hcut, hstart, hstop⟩ := (h.share_iff hne).mp hs
  obtain ⟨part, hpart, hbefore, hbehind⟩ := Span.exists_intersect?_of_covers hcut hw
  obtain ⟨wider, hwider, hstart', hstop'⟩ := h.exists_share hpart
  refine ⟨wider, hwider, Span.covers_iff.mpr ⟨?_, ?_⟩⟩
  · rw [UInt32.le_iff_toNat_le, hstart, hstart']
    exact imageDown_mono hbefore
  · rw [UInt32.le_iff_toNat_le, hstop, hstop']
    exact imageUp_mono hbehind

/-- An offset that a query reaches is reached by one of its two parts. -/
theorem exists_share_of_seam (hfirst : first < middle) (hlast : middle < last)
    (hs : Share origin image true ⟨first, last⟩ answer) (ho : answer.contains offset = true) :
    ∃ part, part.contains offset = true ∧ (Share origin image true ⟨first, middle⟩ part ∨
      Share origin image true ⟨middle, last⟩ part) := by
  have hne : first ≠ last := UInt32.ne_of_lt (UInt32.lt_trans hfirst hlast)
  obtain ⟨cut, hcut, hstart, hstop⟩ := (h.share_iff hne).mp hs
  obtain hleft | hright | ⟨hfrom, hto, hleft, hright⟩ := Span.intersect?_of_seam hcut hfirst hlast
  · refine ⟨answer, ho, Or.inl ?_⟩
    exact (h.share_iff (UInt32.ne_of_lt hfirst)).mpr ⟨cut, hleft, hstart, hstop⟩
  · refine ⟨answer, ho, Or.inr ?_⟩
    exact (h.share_iff (UInt32.ne_of_lt hlast)).mpr ⟨cut, hright, hstart, hstop⟩
  · obtain ⟨before, hbefore, hstart', hstop'⟩ := h.exists_share hleft
    obtain ⟨behind, hbehind, hstart'', hstop''⟩ := h.exists_share hright
    -- The first part is rounded up at the seam and the second down, so no offset falls between.
    have hseam : imageDown origin image middle ≤ imageUp origin image middle :=
      imageDown_le_imageUp (UInt32.le_refl middle)
    simp only [Span.contains_iff, UInt32.le_iff_toNat_le, UInt32.lt_iff_toNat_lt] at ho ⊢
    simp only at hstart' hstop' hstart'' hstop''
    by_cases hside : offset.toNat < before.stop.toNat
    · exact ⟨before, ⟨by omega, hside⟩, Or.inl hbefore⟩
    · exact ⟨behind, ⟨by omega, by omega⟩, Or.inr hbehind⟩

end Copied

/-- The offsets that lie in some of the spans. -/
def Span.covered (spans : List Span) : Set UInt32 :=
  {offset | ∃ s ∈ spans, s.contains offset = true}

theorem Span.contains_of_covers {s inner : Span} {offset : UInt32} (h : s.covers inner = true)
    (ho : inner.contains offset = true) : s.contains offset = true := by
  obtain ⟨hstart, hstop⟩ := covers_iff.mp h
  obtain ⟨hfrom, hto⟩ := contains_iff.mp ho
  exact contains_iff.mpr ⟨UInt32.le_trans hstart hfrom, UInt32.lt_of_lt_of_le hto hstop⟩

/-- A link of any kind has a share in a query around one in which it has a share. -/
theorem Share.exists_of_covers {l : Link} (hl : l.Proper) (d : Direction)
    {narrow wide answer : Span} (hne : narrow.start ≠ narrow.stop) (hw : wide.covers narrow = true)
    (hs : Share (d.origin l) (d.image l) l.literal narrow answer) :
    ∃ wider, Share (d.origin l) (d.image l) l.literal wide wider ∧ wider.covers answer = true := by
  cases hv : l.literal with
  | true =>
      rw [hv] at hs
      exact (d.copied hl hv).exists_share_of_covers hne hw hs
  | false =>
      obtain ⟨hle, -⟩ := hs.touches (d.projectable hl)
      obtain ⟨hbefore, hbehind⟩ := Span.covers_iff.mp hw
      have hproper : wide.start < wide.stop :=
        UInt32.lt_of_le_of_lt hbefore
          (UInt32.lt_of_lt_of_le (UInt32.lt_of_le_of_ne hle hne) hbehind)
      -- A synthesized link answers as a whole or not at all.
      rw [hv] at hs
      cases hs with
      | whole _ covered =>
          refine ⟨d.image l, .whole (UInt32.ne_of_lt hproper) ⟨?_, ?_⟩, ?_⟩
          · exact UInt32.le_trans hbefore covered.1
          · exact UInt32.le_trans covered.2 hbehind
          · exact Span.covers_iff.mpr ⟨UInt32.le_refl _, UInt32.le_refl _⟩
      | slice verbatim => cases verbatim
      | caret verbatim => cases verbatim

namespace SpanMap

variable (m : SpanMap) (d : Direction)

/-- Each answer to a query lies in some answer to any query around it. -/
theorem exists_answers_of_covers {narrow wide answer : Span} (hne : narrow.start ≠ narrow.stop)
    (hw : wide.covers narrow = true) (ha : answer ∈ m.answers d narrow) :
    ∃ wider ∈ m.answers d wide, wider.covers answer = true := by
  obtain ⟨l, hl, hs⟩ := mem_answers_iff.mp ha
  obtain ⟨wider, hwider, hcovers⟩ := hs.exists_of_covers (m.proper_of_mem hl) d hne hw
  exact ⟨wider, mem_answers_iff.mpr ⟨l, hl, hwider⟩, hcovers⟩

/-- A wider query reaches at least the same offsets. -/
theorem covered_subset_of_covers {narrow wide : Span} (hne : narrow.start ≠ narrow.stop)
    (hw : wide.covers narrow = true) :
    Span.covered (m.answers d narrow) ⊆ Span.covered (m.answers d wide) := by
  rintro offset ⟨answer, ha, ho⟩
  obtain ⟨wider, hwider, hcovers⟩ := m.exists_answers_of_covers d hne hw ha
  exact ⟨wider, hwider, Span.contains_of_covers hcovers ho⟩

/-- On literal links a query reaches no more than its two parts. -/
theorem covered_subset_of_seam (hv : ∀ l ∈ m.links.toList, l.literal = true)
    {first middle last : UInt32} (hfirst : first < middle) (hlast : middle < last) :
    Span.covered (m.answers d ⟨first, last⟩) ⊆
      Span.covered (m.answers d ⟨first, middle⟩) ∪ Span.covered (m.answers d ⟨middle, last⟩) := by
  rintro offset ⟨answer, ha, ho⟩
  obtain ⟨l, hl, hs⟩ := mem_answers_iff.mp ha
  rw [hv l hl] at hs
  have hcopied := d.copied (m.proper_of_mem hl) (hv l hl)
  obtain ⟨part, hpart, hleft | hright⟩ := hcopied.exists_share_of_seam hfirst hlast hs ho
  · exact Or.inl ⟨part, mem_answers_iff.mpr ⟨l, hl, (hv l hl).symm ▸ hleft⟩, hpart⟩
  · exact Or.inr ⟨part, mem_answers_iff.mpr ⟨l, hl, (hv l hl).symm ▸ hright⟩, hpart⟩

/-- Each answer lies in some answer to any query around it, and on copies nothing is gained or lost
at a seam. -/
theorem coverage_grows_and_splits (m : SpanMap) (d : Direction) :
    (∀ narrow wide : Span, narrow.isEmpty = false → wide.covers narrow = true →
      ∀ answer ∈ m.answers d narrow, ∃ wider ∈ m.answers d wide, wider.covers answer = true) ∧
    ((∀ l ∈ m.links.toList, l.literal = true) →
      ∀ first middle last : UInt32, first < middle → middle < last →
        Span.covered (m.answers d ⟨first, last⟩) =
          Span.covered (m.answers d ⟨first, middle⟩) ∪
            Span.covered (m.answers d ⟨middle, last⟩)) := by
  constructor
  · intro narrow wide hproper hw answer ha
    have hne : narrow.start ≠ narrow.stop := beq_eq_false_iff_ne.mp hproper
    exact m.exists_answers_of_covers d hne hw ha
  · intro hv first middle last hfirst hlast
    apply Set.Subset.antisymm
    · exact m.covered_subset_of_seam d hv hfirst hlast
    · apply Set.union_subset
      · refine m.covered_subset_of_covers d (UInt32.ne_of_lt hfirst) ?_
        exact Span.covers_iff.mpr ⟨UInt32.le_refl _, UInt32.le_of_lt hlast⟩
      · refine m.covered_subset_of_covers d (UInt32.ne_of_lt hlast) ?_
        exact Span.covers_iff.mpr ⟨UInt32.le_of_lt hfirst, UInt32.le_refl _⟩

/-- A copy at three sevenths beside a link without source text, and two copies without an offset at
the seam. -/
theorem coverage_grows_and_splits_uneven :
    let mixed : SpanMap := ⟨#[⟨⟨0, 7⟩, ⟨0, 3⟩, true⟩, ⟨⟨7, 9⟩, ⟨2, 2⟩, false⟩], _, by decide, rfl⟩
    let copies : SpanMap := ⟨#[⟨⟨0, 7⟩, ⟨0, 3⟩, true⟩, ⟨⟨7, 9⟩, ⟨0, 5⟩, true⟩], _, by decide, rfl⟩
    ((⟨1, 3⟩ : Span).isEmpty = false ∧ (⟨0, 4⟩ : Span).covers ⟨1, 3⟩ = true ∧
        (⟨7, 9⟩ : Span) ∈ mixed.answers .toTarget ⟨1, 3⟩ ∧
          ∃ wider ∈ mixed.answers .toTarget ⟨0, 4⟩, wider.covers ⟨7, 9⟩ = true) ∧
      (∀ l ∈ copies.links.toList, l.literal = true) ∧
        Span.covered (copies.answers .toTarget ⟨0, 3⟩) =
          Span.covered (copies.answers .toTarget ⟨0, 1⟩) ∪
            Span.covered (copies.answers .toTarget ⟨1, 3⟩) := by
  intro mixed copies
  have hanswer : (⟨7, 9⟩ : Span) ∈ mixed.answers .toTarget ⟨1, 3⟩ :=
    mixed.mem_toTarget (l := ⟨⟨7, 9⟩, ⟨2, 2⟩, false⟩) (by decide) (by decide)
  have hliteral : ∀ l ∈ copies.links.toList, l.literal = true := by decide
  refine ⟨⟨by decide, by decide, hanswer, ?_⟩, hliteral, ?_⟩
  · exact (coverage_grows_and_splits mixed .toTarget).1 ⟨1, 3⟩ ⟨0, 4⟩ (by decide) (by decide) _
      hanswer
  · exact (coverage_grows_and_splits copies .toTarget).2 hliteral 0 1 3 (by decide) (by decide)

end SpanMap

end MacroAtlas
