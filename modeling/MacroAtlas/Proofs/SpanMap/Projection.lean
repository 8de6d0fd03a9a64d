import MacroAtlas.Proofs.SpanMap.Soundness
import MacroAtlas.SpanMap.Projection

/-!
# What a link answers

In exact arithmetic an offset of one side of a link has a fraction of the other side for its image.
The machine words of a projection hold it rounded down or up, so what a link answers can be said
without them.
-/

namespace MacroAtlas

/-- Both sides of a link that stands in some map, seen from the side that is asked. -/
structure Projectable (origin image : Span) (literal : Bool) : Prop where
  /-- The bounds of the side that is asked are in order. -/
  origin_le : origin.start ≤ origin.stop
  /-- The bounds of the other side are in order. -/
  image_le : image.start ≤ image.stop
  /-- A literal link has text on the side that is asked. -/
  origin_lt : literal = true → origin.start < origin.stop

namespace Link.Proper

variable {l : Link} (h : l.Proper)

include h

theorem toSource : Projectable l.target l.source l.literal :=
  ⟨UInt32.le_of_lt h.target, h.source, fun _ => h.target⟩

theorem toTarget : Projectable l.source l.target l.literal :=
  ⟨h.source, UInt32.le_of_lt h.target, h.literal⟩

end Link.Proper

/-- The exact image of an offset, rounded down. -/
def imageDown (origin image : Span) (offset : UInt32) : Nat :=
  image.start.toNat + (offset.toNat - origin.start.toNat) *
    (image.stop.toNat - image.start.toNat) / (origin.stop.toNat - origin.start.toNat)

/-- The exact image of an offset, rounded up. -/
def imageUp (origin image : Span) (offset : UInt32) : Nat :=
  image.start.toNat + ((offset.toNat - origin.start.toNat) *
    (image.stop.toNat - image.start.toNat) + (origin.stop.toNat - origin.start.toNat - 1)) /
      (origin.stop.toNat - origin.start.toNat)

section Rounding

variable {a F L : Nat}

private theorem mul_div_le (h : a ≤ F) : a * L / F ≤ L :=
  Nat.div_le_of_le_mul (Nat.mul_le_mul_right L h)

private theorem mul_div_lt (h : a < F) (hL : 0 < L) : a * L / F < L :=
  Nat.div_lt_of_lt_mul (Nat.mul_lt_mul_of_pos_right h hL)

private theorem ceil_le (h : a ≤ F) (hF : 0 < F) : (a * L + (F - 1)) / F ≤ L := by
  have hmul := Nat.mul_le_mul_right L h
  have hlt : a * L + (F - 1) < F * (L + 1) := by
    rw [Nat.mul_add, Nat.mul_one]
    omega
  exact Nat.le_of_lt_succ (Nat.div_lt_of_lt_mul hlt)

end Rounding

section Image

variable {origin image : Span} {offset other : UInt32}

theorem le_imageDown : image.start.toNat ≤ imageDown origin image offset := Nat.le_add_right _ _

/-- An offset of the origin that is no end has its image before the end. -/
theorem imageDown_lt (hi : image.start < image.stop) (ho : origin.start ≤ offset)
    (h : offset < origin.stop) : imageDown origin image offset < image.stop.toNat := by
  rw [UInt32.lt_iff_toNat_lt] at hi h
  rw [UInt32.le_iff_toNat_le] at ho
  have hlt : (offset.toNat - origin.start.toNat) * (image.stop.toNat - image.start.toNat) /
      (origin.stop.toNat - origin.start.toNat) < image.stop.toNat - image.start.toNat :=
    mul_div_lt (by omega) (by omega)
  unfold imageDown
  omega

/-- The image of an offset of the origin lies within the image span, rounded down. -/
theorem imageDown_le (hi : image.start ≤ image.stop) (ho : origin.start ≤ offset)
    (h : offset ≤ origin.stop) : imageDown origin image offset ≤ image.stop.toNat := by
  rw [UInt32.le_iff_toNat_le] at hi ho h
  have hle : (offset.toNat - origin.start.toNat) * (image.stop.toNat - image.start.toNat) /
      (origin.stop.toNat - origin.start.toNat) ≤ image.stop.toNat - image.start.toNat :=
    mul_div_le (by omega)
  unfold imageDown
  omega

/-- And rounded up. -/
theorem imageUp_le (hi : image.start ≤ image.stop) (hne : origin.start < origin.stop)
    (ho : origin.start ≤ offset) (h : offset ≤ origin.stop) :
    imageUp origin image offset ≤ image.stop.toNat := by
  rw [UInt32.lt_iff_toNat_lt] at hne
  rw [UInt32.le_iff_toNat_le] at hi ho h
  have hle : ((offset.toNat - origin.start.toNat) * (image.stop.toNat - image.start.toNat) +
      (origin.stop.toNat - origin.start.toNat - 1)) / (origin.stop.toNat - origin.start.toNat) ≤
        image.stop.toNat - image.start.toNat :=
    ceil_le (by omega) (by omega)
  unfold imageUp
  omega

/-- Between sides of one length an offset is only shifted. -/
theorem imageDown_of_length_eq (hne : origin.start < origin.stop)
    (heq : origin.stop.toNat - origin.start.toNat = image.stop.toNat - image.start.toNat) :
    imageDown origin image offset =
      image.start.toNat + (offset.toNat - origin.start.toNat) := by
  rw [UInt32.lt_iff_toNat_lt] at hne
  rw [imageDown, ← heq, Nat.mul_div_cancel _ (by omega)]

/-- Between sides of one length an end is only shifted. -/
theorem imageUp_of_length_eq (hne : origin.start < origin.stop)
    (heq : origin.stop.toNat - origin.start.toNat = image.stop.toNat - image.start.toNat) :
    imageUp origin image offset = image.start.toNat + (offset.toNat - origin.start.toNat) := by
  rw [UInt32.lt_iff_toNat_lt] at hne
  rw [imageUp, ← heq]
  congr 1
  refine Nat.div_eq_of_lt_le ?_ ?_
  · exact Nat.le_add_right _ _
  · rw [Nat.succ_mul]
    omega

/-- Rounding keeps the order of offsets. -/
theorem imageDown_le_imageUp (h : offset ≤ other) :
    imageDown origin image offset ≤ imageUp origin image other := by
  rw [UInt32.le_iff_toNat_le] at h
  have hmul : (offset.toNat - origin.start.toNat) * (image.stop.toNat - image.start.toNat) ≤
      (other.toNat - origin.start.toNat) * (image.stop.toNat - image.start.toNat) :=
    Nat.mul_le_mul_right _ (by omega)
  exact Nat.add_le_add_left (Nat.div_le_div_right (Nat.le_add_right_of_le hmul)) _

end Image

theorem Span.toNat_length {s : Span} (h : s.start ≤ s.stop) :
    s.length.toNat = s.stop.toNat - s.start.toNat := by
  rw [length, UInt32.toNat_sub_of_le _ _ h]

/-- A span is told by its bounds. -/
theorem Span.eq_of_bounds {s t : Span} (hstart : s.start = t.start) (hstop : s.stop = t.stop) :
    s = t := by
  calc s = ⟨s.start, s.stop⟩ := rfl
    _ = ⟨t.start, t.stop⟩ := by rw [hstart, hstop]

theorem Span.isEmpty_iff {s : Span} : s.isEmpty = true ↔ s.start = s.stop := beq_iff_eq

/-- One span covers another where it starts no later and stops no earlier. -/
theorem Span.covers_iff {s t : Span} :
    s.covers t = true ↔ s.start ≤ t.start ∧ t.stop ≤ s.stop := by
  simp only [Span.covers, Bool.and_eq_true, decide_eq_true_eq]

/-- A span contains its start and what follows, up to its stop. -/
theorem Span.contains_iff {s : Span} {offset : UInt32} :
    s.contains offset = true ↔ s.start ≤ offset ∧ offset < s.stop := by
  simp only [Span.contains, Bool.and_eq_true, decide_eq_true_eq]

theorem Span.isEmpty_eq_false_of_lt {s : Span} (h : s.start < s.stop) : s.isEmpty = false := by
  rw [isEmpty, beq_eq_false_iff_ne]
  exact UInt32.ne_of_lt h

/-- The product of a projection fits 64 bits. -/
theorem toNat_product (a b : UInt32) :
    (a.toUInt64 * b.toUInt64).toNat = a.toNat * b.toNat := by
  have hlt : a.toNat * b.toNat < 2 ^ 32 * 2 ^ 32 :=
    Nat.mul_lt_mul'' a.toNat_lt b.toNat_lt
  rw [UInt64.toNat_mul, UInt32.toNat_toUInt64, UInt32.toNat_toUInt64]
  exact Nat.mod_eq_of_lt (by simpa using hlt)

/-- A division that rounds up. -/
theorem toNat_divideUp (n d : UInt64) (hd : 0 < d.toNat) :
    (divideUp n d).toNat = (n.toNat + (d.toNat - 1)) / d.toNat := by
  have hdiv := Nat.div_add_mod n.toNat d.toNat
  have hmod := Nat.mod_lt n.toNat hd
  have hn := n.toNat_lt
  have hzero : n % d = 0 ↔ n.toNat % d.toNat = 0 := by
    rw [← UInt64.toNat_inj, UInt64.toNat_mod, UInt64.toNat_zero]
  have hle : n.toNat / d.toNat ≤ d.toNat * (n.toNat / d.toNat) := Nat.le_mul_of_pos_left _ hd
  simp only [divideUp, hzero]
  split
  · next h =>
      rw [UInt64.toNat_div]
      refine (Nat.div_eq_of_lt_le ?_ ?_).symm
      · rw [Nat.mul_comm]; omega
      · rw [Nat.succ_mul, Nat.mul_comm]; omega
  · next h =>
      rw [UInt64.toNat_add, UInt64.toNat_div, UInt64.toNat_one, Nat.mod_eq_of_lt (by omega)]
      refine (Nat.div_eq_of_lt_le ?_ ?_).symm
      · rw [Nat.succ_mul, Nat.mul_comm]; omega
      · rw [Nat.succ_mul, Nat.succ_mul, Nat.mul_comm]; omega

theorem toNat_max (a b : UInt32) : (max a b).toNat = max a.toNat b.toNat := by
  rw [Nat.max_def]
  exact apply_ite UInt32.toNat _ _ _

theorem toNat_min (a b : UInt32) : (min a b).toNat = min a.toNat b.toNat := by
  rw [Nat.min_def]
  exact apply_ite UInt32.toNat _ _ _

section Projection

variable {origin image : Span} {offset : UInt32}

/-- The words of a projection down hold the exact image. -/
theorem toNat_projectDown (hi : image.start ≤ image.stop) (hne : origin.start < origin.stop)
    (ho : origin.start ≤ offset) (h : offset ≤ origin.stop) :
    (projectDown origin image offset).toNat = imageDown origin image offset := by
  have hlength := Span.toNat_length (UInt32.le_of_lt hne)
  have hlength' := Span.toNat_length hi
  have hshift : (offset - origin.start).toNat = offset.toNat - origin.start.toNat :=
    UInt32.toNat_sub_of_le _ _ ho
  have hle : imageDown origin image offset ≤ image.stop.toNat := imageDown_le hi ho h
  have hbound := image.stop.toNat_lt
  unfold projectDown
  split
  · next heq =>
      -- Sides of one length are passed through offset by offset.
      have hsame : imageDown origin image offset =
          image.start.toNat + (offset.toNat - origin.start.toNat) :=
        imageDown_of_length_eq hne (by rw [← hlength, ← hlength', heq])
      rw [UInt32.toNat_add, hshift, hsame, Nat.mod_eq_of_lt (by omega)]
  · rw [Span.isEmpty_eq_false_of_lt hne, if_neg Bool.false_ne_true]
    simp only [UInt32.toNat_add, UInt64.toNat_toUInt32, UInt64.toNat_div, toNat_product,
      UInt32.toNat_toUInt64, hshift, hlength, hlength']
    unfold imageDown at hle ⊢
    rw [Nat.mod_eq_of_lt (a := _ / _) (by omega), Nat.mod_eq_of_lt (by omega)]

/-- The words of a projection up hold the exact image. -/
theorem toNat_projectUp (hi : image.start ≤ image.stop) (hne : origin.start < origin.stop)
    (ho : origin.start ≤ offset) (h : offset ≤ origin.stop) :
    (projectUp origin image offset).toNat = imageUp origin image offset := by
  have hlength := Span.toNat_length (UInt32.le_of_lt hne)
  have hlength' := Span.toNat_length hi
  have hshift : (offset - origin.start).toNat = offset.toNat - origin.start.toNat :=
    UInt32.toNat_sub_of_le _ _ ho
  have hle : imageUp origin image offset ≤ image.stop.toNat := imageUp_le hi hne ho h
  have hbound := image.stop.toNat_lt
  have hpos := UInt32.lt_iff_toNat_lt.mp hne
  unfold projectUp
  split
  · next heq =>
      have hsame : imageUp origin image offset =
          image.start.toNat + (offset.toNat - origin.start.toNat) :=
        imageUp_of_length_eq hne (by rw [← hlength, ← hlength', heq])
      rw [UInt32.toNat_add, hshift, hsame, Nat.mod_eq_of_lt (by omega)]
  · rw [Span.isEmpty_eq_false_of_lt hne, if_neg Bool.false_ne_true]
    simp only [UInt32.toNat_add, UInt64.toNat_toUInt32, toNat_product,
      toNat_divideUp _ origin.length.toUInt64 (by rw [UInt32.toNat_toUInt64]; omega),
      UInt32.toNat_toUInt64, hshift, hlength, hlength']
    unfold imageUp at hle ⊢
    rw [Nat.mod_eq_of_lt (a := _ / _) (by omega), Nat.mod_eq_of_lt (by omega)]

end Projection

/-- What a link with text `origin` on the side that is asked and `image` on the other answers to a
query. -/
inductive Share (origin image : Span) (literal : Bool) (query : Span) : Span → Prop where
  /-- A query that is no caret and covers the link gets the other side as a whole. -/
  | whole (proper : query.start ≠ query.stop)
      (covered : query.start ≤ origin.start ∧ origin.stop ≤ query.stop) :
      Share origin image literal query image
  /-- A query that cuts a literal link gets the slice that its part of the link covers. -/
  | slice {answer : Span} (verbatim : literal = true) (proper : query.start ≠ query.stop)
      (cut : ¬ (query.start ≤ origin.start ∧ origin.stop ≤ query.stop))
      (overlap : max origin.start query.start < min origin.stop query.stop)
      (start : answer.start.toNat = imageDown origin image (max origin.start query.start))
      (stop : answer.stop.toNat = imageUp origin image (min origin.stop query.stop)) :
      Share origin image literal query answer
  /-- A caret inside a literal link gets a caret. -/
  | caret {offset : UInt32} (verbatim : literal = true) (empty : query.start = query.stop)
      (inside : origin.start ≤ query.start ∧ query.start < origin.stop)
      (exact : offset.toNat = imageDown origin image query.start) :
      Share origin image literal query (.caret offset)

/-- The part of a span that a query cuts out lies within both. -/
theorem overlap_within {origin query : Span}
    (h : max origin.start query.start < min origin.stop query.stop) :
    origin.start ≤ max origin.start query.start ∧ min origin.stop query.stop ≤ origin.stop ∧
      origin.start < query.stop ∧ query.start < origin.stop ∧ query.start < query.stop := by
  simp only [UInt32.lt_iff_toNat_lt, UInt32.le_iff_toNat_le, toNat_max, toNat_min] at h ⊢
  omega

/-- A cut literal link answers the slice of its exact images. -/
private theorem toNat_slice {origin image query : Span} {literal : Bool}
    (h : Projectable origin image literal) (hl : literal = true)
    (hc : max origin.start query.start < min origin.stop query.stop) :
    (projectDown origin image (max origin.start query.start)).toNat =
        imageDown origin image (max origin.start query.start) ∧
      (projectUp origin image (min origin.stop query.stop)).toNat =
        imageUp origin image (min origin.stop query.stop) := by
  obtain ⟨hstart, hstop, -⟩ := overlap_within hc
  have hne := h.origin_lt hl
  exact ⟨toNat_projectDown h.image_le hne hstart (UInt32.le_of_lt (UInt32.lt_of_lt_of_le hc hstop)),
    toNat_projectUp h.image_le hne (UInt32.le_of_lt (UInt32.lt_of_le_of_lt hstart hc)) hstop⟩

/-- A projection answers the share of the link. -/
private theorem Share.of_project {origin image query answer : Span} {literal : Bool}
    (h : Projectable origin image literal)
    (hp : project origin image literal query = some answer) :
    Share origin image literal query answer := by
  unfold project at hp
  split at hp
  · next he =>
      split at hp
      · next hc =>
          obtain ⟨hl, hcontains⟩ := (Bool.and_eq_true _ _).mp hc
          have hinside := Span.contains_iff.mp hcontains
          obtain rfl := Option.some.inj hp
          exact .caret hl (Span.isEmpty_iff.mp he) hinside
            (toNat_projectDown h.image_le (h.origin_lt hl) hinside.1 (UInt32.le_of_lt hinside.2))
      · cases hp
  · next he =>
      have hproper : query.start ≠ query.stop := fun h => he (Span.isEmpty_iff.mpr h)
      unfold clip at hp
      split at hp
      · next hc =>
          obtain rfl := Option.some.inj hp
          exact .whole hproper (Span.covers_iff.mp hc)
      · next hc =>
          simp only [Span.intersect?] at hp
          by_cases hcut : max origin.start query.start < min origin.stop query.stop
          · rw [if_pos hcut] at hp
            cases literal with
            | false => cases hp
            | true =>
                obtain rfl := Option.some.inj hp
                obtain ⟨hstart, hstop⟩ := toNat_slice h rfl hcut
                exact .slice rfl hproper (fun h => hc (Span.covers_iff.mpr h)) hcut hstart hstop
          · rw [if_neg hcut] at hp
            cases hp

/-- The share of the link is what a projection answers. -/
private theorem Share.project_eq {origin image query answer : Span} {literal : Bool}
    (h : Projectable origin image literal) (hs : Share origin image literal query answer) :
    project origin image literal query = some answer := by
  cases hs with
  | whole proper covered =>
      rw [project, if_neg (fun h => proper (Span.isEmpty_iff.mp h)), clip,
        if_pos (Span.covers_iff.mpr covered)]
  | slice verbatim proper cut overlap start stop =>
      obtain ⟨hstart, hstop⟩ := toNat_slice h verbatim overlap
      rw [project, if_neg (fun h => proper (Span.isEmpty_iff.mp h)), clip,
        if_neg (fun h => cut (Span.covers_iff.mp h)), Span.intersect?]
      simp only [overlap, ite_true, verbatim]
      obtain ⟨_, _⟩ := answer
      congr
      · exact UInt32.toNat_inj.mp (hstart.trans start.symm)
      · exact UInt32.toNat_inj.mp (hstop.trans stop.symm)
  | caret verbatim empty inside exact =>
      have hword := toNat_projectDown h.image_le (h.origin_lt verbatim) inside.1
        (UInt32.le_of_lt inside.2)
      have hcontains : (literal && origin.contains query.start) = true :=
        (Bool.and_eq_true _ _).mpr ⟨verbatim, Span.contains_iff.mpr inside⟩
      rw [project, if_pos (Span.isEmpty_iff.mpr empty), if_pos hcontains,
        UInt32.toNat_inj.mp (hword.trans exact.symm)]

/-- A projection answers the share of the link, and nothing where there is none. -/
theorem project_eq_some_iff {origin image query answer : Span} {literal : Bool}
    (h : Projectable origin image literal) :
    project origin image literal query = some answer ↔ Share origin image literal query answer :=
  ⟨Share.of_project h, Share.project_eq h⟩

/-- Where there is no share there is no answer. -/
theorem project_eq_none_iff {origin image query : Span} {literal : Bool}
    (h : Projectable origin image literal) :
    project origin image literal query = none ↔
      ∀ answer, ¬ Share origin image literal query answer := by
  simp only [Option.eq_none_iff_forall_ne_some, ne_eq, project_eq_some_iff h]

namespace Share

variable {origin image query answer : Span} {literal : Bool}

/-- Only a query that touches the link gets something, and no inverted query does. -/
theorem touches (h : Projectable origin image literal)
    (hs : Share origin image literal query answer) :
    query.start ≤ query.stop ∧ origin.start ≤ query.stop ∧
      (origin.start < origin.stop → query.start < origin.stop) ∧
      (query.start ≠ query.stop → origin.start < origin.stop → origin.start < query.stop) := by
  have ho := h.origin_le
  cases hs with
  | whole _ covered => grind
  | slice _ _ _ overlap _ _ =>
      have hwithin := overlap_within overlap
      grind
  | caret _ empty inside _ => grind

/-- A share lies on the other side of the link. -/
theorem within (h : Projectable origin image literal)
    (hs : Share origin image literal query answer) :
    image.start ≤ answer.start ∧ answer.start ≤ answer.stop ∧ answer.stop ≤ image.stop := by
  have hi := h.image_le
  cases hs with
  | whole _ _ => exact ⟨UInt32.le_refl _, hi, UInt32.le_refl _⟩
  | slice verbatim _ _ overlap start stop =>
      obtain ⟨hstart, hstop, -⟩ := overlap_within overlap
      have hne := h.origin_lt verbatim
      have hfrom : image.start.toNat ≤ answer.start.toNat := start ▸ le_imageDown
      have hto : answer.stop.toNat ≤ image.stop.toNat :=
        stop ▸ imageUp_le hi hne (UInt32.le_of_lt (UInt32.lt_of_le_of_lt hstart overlap)) hstop
      have hordered : answer.start.toNat ≤ answer.stop.toNat := by
        rw [start, stop]
        exact imageDown_le_imageUp (UInt32.le_of_lt overlap)
      exact ⟨hfrom, hordered, hto⟩
  | caret _ _ inside exact =>
      have hfrom : image.start.toNat ≤ _ := exact ▸ le_imageDown
      have hto : _ ≤ image.stop.toNat :=
        exact ▸ imageDown_le hi inside.1 (UInt32.le_of_lt inside.2)
      exact ⟨hfrom, UInt32.le_refl _, hto⟩

/-- If there is text on the other side, a share starts in front of its end. -/
theorem start_lt (hi : image.start < image.stop)
    (hs : Share origin image literal query answer) : answer.start < image.stop := by
  cases hs with
  | whole _ _ => exact hi
  | slice _ _ _ overlap start _ =>
      obtain ⟨hstart, hstop, -⟩ := overlap_within overlap
      rw [UInt32.lt_iff_toNat_lt, start]
      exact imageDown_lt hi hstart (UInt32.lt_of_lt_of_le overlap hstop)
  | caret _ _ inside exact =>
      rw [UInt32.lt_iff_toNat_lt, Span.caret, exact]
      exact imageDown_lt hi inside.1 inside.2

end Share

end MacroAtlas
