import MacroAtlas.SpanMap.Basic

/-!
# Sound lists of links

A list of links is sound when each link is proper and every target ends before all later ones start.
Such a list is sorted, and because its targets are not empty it has fewer links than there are
offsets.
-/

namespace MacroAtlas

/-- A link that can stand in some map. -/
structure Link.Proper (l : Link) : Prop where
  /-- The target is not empty. -/
  target : l.target.start < l.target.stop
  /-- The bounds of the source are in order. -/
  source : l.source.start ≤ l.source.stop
  /-- A literal link copies something. -/
  literal : l.literal = true → l.source.start < l.source.stop

/-- A link has no fault exactly when it is proper and starts no earlier than the target in front of
it ends. -/
theorem Link.fault?_eq_none_iff {l : Link} {previous : Option Span} :
    l.fault? previous = none ↔ l.Proper ∧ ∀ p ∈ previous, p.stop ≤ l.target.start := by
  have hsplit : l.Proper ↔ ¬ l.target.Inverted ∧ ¬ l.source.Inverted ∧
      l.target.isEmpty = false ∧ (l.literal && l.source.isEmpty) = false := by
    simp only [Span.Inverted, Span.isEmpty, UInt32.not_lt, beq_eq_false_iff_ne,
      Bool.and_eq_false_imp, ne_eq]
    constructor
    · rintro ⟨ht, hs, hl⟩
      exact ⟨UInt32.le_of_lt ht, hs, UInt32.ne_of_lt ht, fun h => UInt32.ne_of_lt (hl h)⟩
    · rintro ⟨ht, hs, hne, hl⟩
      exact ⟨UInt32.lt_of_le_of_ne ht hne, hs, fun h => UInt32.lt_of_le_of_ne hs (hl h)⟩
  rw [hsplit]
  unfold Link.fault?
  cases previous with
  | none => repeat' split <;> simp_all
  | some p => repeat' split <;> simp_all

/-- The scan finds no fault exactly when all links are proper and in order, each after the target
that the scan started from. -/
theorem firstFaultAfter?_eq_none_iff {previous : Option Span} {links : List Link} :
    firstFaultAfter? previous links = none ↔
      (∀ l ∈ links, l.Proper) ∧
        links.Pairwise (fun a b => a.target.stop ≤ b.target.start) ∧
          ∀ p ∈ previous, ∀ l ∈ links, p.stop ≤ l.target.start := by
  induction links generalizing previous with
  | nil => simp [firstFaultAfter?]
  | cons l rest ih =>
      simp only [firstFaultAfter?, Option.or_eq_none_iff, Link.fault?_eq_none_iff, ih,
        List.pairwise_cons, List.forall_mem_cons, Option.mem_some_iff, forall_eq']
      constructor
      · rintro ⟨⟨hl, hp⟩, hrest, hpw, hafter⟩
        refine ⟨⟨hl, hrest⟩, ⟨hafter, hpw⟩, fun p hpm => ⟨hp p hpm, fun m hm => ?_⟩⟩
        exact UInt32.le_trans (hp p hpm) (UInt32.le_trans (UInt32.le_of_lt hl.target) (hafter m hm))
      · rintro ⟨⟨hl, hrest⟩, ⟨hafter, hpw⟩, hp⟩
        exact ⟨⟨hl, fun p hpm => (hp p hpm).1⟩, hrest, hpw, hafter⟩

/-- A list of links is sound exactly when all links are proper and no target starts before an
earlier one ends. -/
theorem firstFault?_eq_none_iff {links : List Link} :
    firstFault? links = none ↔ (∀ l ∈ links, l.Proper) ∧
      links.Pairwise (fun a b => a.target.stop ≤ b.target.start) := by
  simp only [firstFault?, firstFaultAfter?_eq_none_iff, Option.not_mem_none, false_implies,
    implies_true, and_true]

/-- Sound links stand in the order of their targets. -/
theorem pairwise_le_of_sound {links : List Link} (h : firstFault? links = none) :
    links.Pairwise (fun a b => a.le b = true) := by
  obtain ⟨hproper, hpw⟩ := firstFault?_eq_none_iff.mp h
  refine hpw.imp_of_mem fun {a b} ha _ hab => ?_
  have hlt : a.target.start < b.target.start := UInt32.lt_of_lt_of_le (hproper a ha).target hab
  have hc : compare a.target.start b.target.start = .lt :=
    compareOfLessAndEq_eq_lt.mpr hlt
  simp only [Link.le, Span.le, Span.cmp, hc]
  rfl

/-- Sorting leaves sound links as they are. -/
theorem mergeSort_eq_self_of_sound {links : List Link} (h : firstFault? links = none) :
    links.mergeSort Link.le = links :=
  List.mergeSort_of_pairwise (pairwise_le_of_sound h)

/-- As the targets are not empty, sound links that follow an offset are fewer than the offsets that
follow it. -/
theorem add_length_lt_of_sound {previous : Span} {links : List Link}
    (h : firstFaultAfter? (some previous) links = none) :
    previous.stop.toNat + links.length < UInt32.size := by
  induction links generalizing previous with
  | nil => exact previous.stop.toNat_lt
  | cons l rest ih =>
      simp only [firstFaultAfter?, Option.or_eq_none_iff, Link.fault?_eq_none_iff,
        Option.mem_some_iff, forall_eq'] at h
      obtain ⟨⟨hl, hp⟩, hrest⟩ := h
      have hlt := UInt32.lt_iff_toNat_lt.mp hl.target
      have hle := UInt32.le_iff_toNat_le.mp hp
      have := ih hrest
      simp only [List.length_cons]
      omega

/-- There are fewer sound links than offsets. -/
theorem length_lt_of_sound {links : List Link} (h : firstFault? links = none) :
    links.length < UInt32.size := by
  have hstart : firstFaultAfter? (some (.caret 0)) links = none := by
    rw [firstFaultAfter?_eq_none_iff]
    obtain ⟨hproper, hpw⟩ := firstFault?_eq_none_iff.mp h
    refine ⟨hproper, hpw, fun p hp l _ => ?_⟩
    cases hp
    exact UInt32.zero_le
  have := add_length_lt_of_sound hstart
  omega

namespace SpanMap

/-- Links in target order make up a map exactly when they are sound; then they are its links. -/
theorem ofOrdered_eq_ok_iff {links : List Link} {m : SpanMap} :
    ofOrdered links = .ok m ↔ m.links.toList = links := by
  unfold ofOrdered
  split
  · next fault hf =>
      simp only [reduceCtorEq, false_iff]
      rintro rfl
      simp [m.sound] at hf
  · next hf =>
      rw [Except.ok.injEq, eq_iff_links_eq]
      constructor
      · intro h
        rw [← h]
      · rintro rfl
        simp

/-- A map is the one that its links make up, even when they could be in any order. -/
theorem ofLinks_links (m : SpanMap) : ofLinks m.links.toList = .ok m := by
  rw [ofLinks, mergeSort_eq_self_of_sound m.sound, ofOrdered_eq_ok_iff]

/-- A map has fewer links than there are offsets. -/
theorem size_lt (m : SpanMap) : m.size < UInt32.size := length_lt_of_sound m.sound

end SpanMap

end MacroAtlas
