import Mathlib.Data.Rat.Floor
import MacroAtlas.Proofs.SpanMap.RoundTrip
import MacroAtlas.Proofs.Word

/-!
# Slices are least covers

The part of a literal link that a query cuts out has an image between two fractions. The link
answers the least span of whole offsets with this image in it. A second projection, whose words
refuse what they cannot hold, is never refused.
-/

namespace MacroAtlas

/-- An offset of `origin`, carried over to `image` in proportion by words that refuse what they
cannot hold. -/
def carry? (divide : UInt64 → UInt64 → UInt64) (origin image : Span) (offset : UInt32) :
    Option UInt32 := do
  let length ← Word.sub? origin.stop origin.start
  let breadth ← Word.sub? image.stop image.start
  let shift ← Word.sub? offset origin.start
  if length = breadth then Word.add? image.start shift
  else if origin.isEmpty then none
  else
    let product ← Word.mul? shift.toUInt64 breadth.toUInt64
    Word.add? image.start (← Word.narrow? (divide product length.toUInt64))

/-- What a link answers to a query that is not a caret, by words that may refuse. -/
def clip? (origin image : Span) (literal : Bool) (query : Span) : Option (Option Span) :=
  if query.covers origin then some (some image)
  else match origin.intersect? query with
    | some overlap =>
      if literal then do
        let start ← carry? (· / ·) origin image overlap.start
        let stop ← carry? divideUp origin image overlap.stop
        some (some ⟨start, stop⟩)
      else some none
    | none => some none

/-- What a link answers to a query, by words that may refuse. -/
def project? (origin image : Span) (literal : Bool) (query : Span) : Option (Option Span) :=
  if query.isEmpty then
    if literal && origin.contains query.start then do
      some (some (.caret (← carry? (· / ·) origin image query.start)))
    else some none
  else clip? origin image literal query

section Refusal

variable {origin image : Span} {offset : UInt32}

/-- No word is refused on the way of an offset of the origin whose image lies in front of the
end. -/
theorem carry?_eq_some {divide : UInt64 → UInt64 → UInt64} (hi : image.start ≤ image.stop)
    (hne : origin.start < origin.stop) (ho : origin.start ≤ offset) (h : offset ≤ origin.stop)
    (hd : image.start.toNat + (divide ((offset - origin.start).toUInt64 * image.length.toUInt64)
      origin.length.toUInt64).toNat ≤ image.stop.toNat) :
    carry? divide origin image offset = some (if origin.length = image.length then
        image.start + (offset - origin.start)
      else image.start + (divide ((offset - origin.start).toUInt64 * image.length.toUInt64)
        origin.length.toUInt64).toUInt32) := by
  have hlength := Span.toNat_length (UInt32.le_of_lt hne)
  have hbreadth := Span.toNat_length hi
  have hshift : (offset - origin.start).toNat = offset.toNat - origin.start.toNat :=
    UInt32.toNat_sub_of_le _ _ ho
  have hstop : image.stop.toNat < UInt32.size := image.stop.toNat_lt
  have hoffset := UInt32.le_iff_toNat_le.mp h
  have hwidth := UInt32.le_iff_toNat_le.mp hi
  have hfrom : Word.sub? origin.stop origin.start = some origin.length :=
    if_pos (UInt32.le_of_lt hne)
  have hto : Word.sub? image.stop image.start = some image.length := if_pos hi
  have hinto : Word.sub? offset origin.start = some (offset - origin.start) := if_pos ho
  unfold carry?
  simp only [hfrom, hto, hinto, Option.bind_eq_bind, Option.bind_some]
  split
  · next heq =>
      have hsame : origin.length.toNat = image.length.toNat := congrArg UInt32.toNat heq
      exact if_pos (by omega)
  · rw [Span.isEmpty_eq_false_of_lt hne, if_neg Bool.false_ne_true, Word.mul?_toUInt64,
      Option.bind_some]
    -- The quotient is a word, because it is at most the length of the image.
    have hquotient : (divide ((offset - origin.start).toUInt64 * image.length.toUInt64)
        origin.length.toUInt64).toNat < UInt32.size := by omega
    have hnarrow : Word.narrow? (divide ((offset - origin.start).toUInt64 * image.length.toUInt64)
        origin.length.toUInt64) = some _ := if_pos hquotient
    rw [hnarrow, Option.bind_some]
    refine if_pos ?_
    rw [UInt64.toNat_toUInt32, Nat.mod_eq_of_lt hquotient]
    omega

/-- The checked arithmetic is not refused on an offset of the origin, rounding down. -/
theorem carry?_down (hi : image.start ≤ image.stop) (hne : origin.start < origin.stop)
    (ho : origin.start ≤ offset) (h : offset ≤ origin.stop) :
    carry? (· / ·) origin image offset = some (projectDown origin image offset) := by
  have hle : imageDown origin image offset ≤ image.stop.toNat := imageDown_le hi ho h
  rw [imageDown, ← UInt32.toNat_sub_of_le _ _ ho, ← Span.toNat_length hi,
    ← Span.toNat_length (UInt32.le_of_lt hne)] at hle
  rw [carry?_eq_some hi hne ho h (by
    simpa only [UInt64.toNat_div, toNat_product, UInt32.toNat_toUInt64] using hle)]
  simp only [projectDown, Span.isEmpty_eq_false_of_lt hne, Bool.false_eq_true, ite_false]

/-- Nor rounding up. -/
theorem carry?_up (hi : image.start ≤ image.stop) (hne : origin.start < origin.stop)
    (ho : origin.start ≤ offset) (h : offset ≤ origin.stop) :
    carry? divideUp origin image offset = some (projectUp origin image offset) := by
  have hpos := UInt32.lt_iff_toNat_lt.mp hne
  have hlength := Span.toNat_length (UInt32.le_of_lt hne)
  have hle : imageUp origin image offset ≤ image.stop.toNat := imageUp_le hi hne ho h
  rw [imageUp, ← UInt32.toNat_sub_of_le _ _ ho, ← Span.toNat_length hi, ← hlength] at hle
  rw [carry?_eq_some hi hne ho h (by
    rw [toNat_divideUp _ _ (by rw [UInt32.toNat_toUInt64]; omega)]
    simpa only [toNat_product, UInt32.toNat_toUInt64] using hle)]
  simp only [projectUp, Span.isEmpty_eq_false_of_lt hne, Bool.false_eq_true, ite_false]

/-- Nothing is refused in a projection through a link of a map. -/
theorem project?_eq_some {literal : Bool} (h : Projectable origin image literal) (query : Span) :
    project? origin image literal query = some (project origin image literal query) := by
  unfold project? project
  split
  · split
    · next hc =>
        obtain ⟨hl, hcontains⟩ := (Bool.and_eq_true _ _).mp hc
        obtain ⟨hstart, hstop⟩ := Span.contains_iff.mp hcontains
        rw [carry?_down h.image_le (h.origin_lt hl) hstart (UInt32.le_of_lt hstop)]
        rfl
    · rfl
  · unfold clip? clip
    split
    · rfl
    · cases hcut : origin.intersect? query with
      | none => rfl
      | some cut =>
          simp only
          cases literal with
          | false => rfl
          | true =>
              obtain ⟨hstart, hlt, hstop⟩ := Span.within_of_intersect? hcut
              have hne := h.origin_lt rfl
              rw [carry?_down h.image_le hne hstart
                  (UInt32.le_of_lt (UInt32.lt_of_lt_of_le hlt hstop)),
                carry?_up h.image_le hne (UInt32.le_of_lt (UInt32.lt_of_le_of_lt hstart hlt)) hstop]
              rfl

end Refusal

/-- The exact image of an offset of `origin`: it divides `image` as the offset divides `origin`. -/
def exactImage (origin image : Span) (offset : UInt32) : ℚ :=
  image.start.toNat + ((offset.toNat : ℚ) - origin.start.toNat) *
    ((image.stop.toNat : ℚ) - image.start.toNat) / ((origin.stop.toNat : ℚ) - origin.start.toNat)

/-- The span reaches from the first fraction to the second, and no shorter one does. -/
structure Span.LeastCover (s : Span) (low high : ℚ) : Prop where
  /-- The first fraction lies behind the start. -/
  start_le : s.start.toNat ≤ low
  /-- The second fraction lies in front of the end. -/
  le_stop : high ≤ s.stop.toNat
  /-- Whole numbers around both fractions are no closer. -/
  least : ∀ first last : ℤ, first ≤ low → high ≤ last →
    first ≤ s.start.toNat ∧ s.stop.toNat ≤ last

/-- What is rounded down at the start and up at the end is a least cover. -/
theorem Span.LeastCover.of_rounded {s : Span} {low high : ℚ}
    (hstart : (s.start.toNat : ℤ) = ⌊low⌋) (hstop : (s.stop.toNat : ℤ) = ⌈high⌉) :
    s.LeastCover low high where
  start_le := by
    have hle := Int.floor_le low
    rw [← hstart] at hle
    exact_mod_cast hle
  le_stop := by
    have hle := Int.le_ceil high
    rw [← hstop] at hle
    exact_mod_cast hle
  least first last hfirst hlast := by
    rw [hstart, hstop]
    exact ⟨Int.le_floor.mpr hfirst, Int.ceil_le.mpr hlast⟩

section Exact

variable {origin image : Span} {offset : UInt32}

/-- Where nothing is below zero the exact image is a quotient of natural numbers. -/
theorem exactImage_eq (hi : image.start ≤ image.stop) (hne : origin.start < origin.stop)
    (ho : origin.start ≤ offset) :
    exactImage origin image offset = image.start.toNat +
      (((offset.toNat - origin.start.toNat) * (image.stop.toNat - image.start.toNat) : ℕ) : ℚ) /
        ((origin.stop.toNat - origin.start.toNat : ℕ) : ℚ) := by
  have hlength := UInt32.le_iff_toNat_le.mp (UInt32.le_of_lt hne)
  rw [exactImage, Nat.cast_mul, Nat.cast_sub (UInt32.le_iff_toNat_le.mp ho),
    Nat.cast_sub (UInt32.le_iff_toNat_le.mp hi), Nat.cast_sub hlength]

/-- Integer division rounds the exact image down. -/
theorem imageDown_eq_floor (hi : image.start ≤ image.stop) (hne : origin.start < origin.stop)
    (ho : origin.start ≤ offset) :
    (imageDown origin image offset : ℤ) = ⌊exactImage origin image offset⌋ := by
  rw [exactImage_eq hi hne ho, Int.floor_natCast_add, Rat.floor_natCast_div_natCast, imageDown,
    Nat.cast_add, Int.natCast_ediv]

/-- A quotient that is rounded up is the least number that reaches the dividend. -/
theorem ceil_div_eq (n : ℕ) {d : ℕ} (hd : 0 < d) :
    ⌈(n : ℚ) / d⌉ = ((n + (d - 1)) / d : ℕ) := by
  have hpos : (0 : ℚ) < d := Nat.cast_pos.mpr hd
  have hfloor := Nat.div_mul_le_self (n + (d - 1)) d
  have hnext := Nat.lt_mul_div_succ (n + (d - 1)) hd
  rw [Nat.mul_comm, Nat.add_mul] at hnext
  have hlow : ((n + (d - 1)) / d * d : ℕ) < n + d := by omega
  have hhigh : n ≤ (n + (d - 1)) / d * d := by omega
  rw [Int.ceil_eq_iff, Int.cast_natCast, lt_div_iff₀ hpos, div_le_iff₀ hpos, sub_mul, one_mul,
    sub_lt_iff_lt_add]
  exact ⟨by exact_mod_cast hlow, by exact_mod_cast hhigh⟩

/-- Adding the divisor less one before dividing rounds it up. -/
theorem imageUp_eq_ceil (hi : image.start ≤ image.stop) (hne : origin.start < origin.stop)
    (ho : origin.start ≤ offset) :
    (imageUp origin image offset : ℤ) = ⌈exactImage origin image offset⌉ := by
  have hpos := UInt32.lt_iff_toNat_lt.mp hne
  rw [exactImage_eq hi hne ho, Int.ceil_natCast_add, ceil_div_eq _ (by omega), imageUp,
    Nat.cast_add]

end Exact

/-- The two ways through a link. -/
inductive Link.Way (l : Link) : Span → Span → Prop where
  /-- From the expansion to the call. -/
  | toSource : l.Way l.target l.source
  /-- From the call to the expansion. -/
  | toTarget : l.Way l.source l.target

theorem Link.Way.projectable {l : Link} {origin image : Span} (h : l.Way origin image)
    (hl : l.Proper) : Projectable origin image l.literal := by
  cases h with
  | toSource => exact hl.toSource
  | toTarget => exact hl.toTarget

/-- On either way through a literal link there is text on both sides. -/
theorem Link.Way.copied {l : Link} {origin image : Span} (h : l.Way origin image) (hl : l.Proper)
    (hv : l.literal = true) : origin.start < origin.stop ∧ image.start < image.stop := by
  cases h with
  | toSource => exact ⟨hl.target, hl.literal hv⟩
  | toTarget => exact ⟨hl.literal hv, hl.target⟩

namespace SpanMap

/-- A part of a literal link is answered by the least cover of its exact image, both ways and
without a refusal. -/
theorem slice_is_least_cover (m : SpanMap) {l : Link} (hmem : l ∈ m.links.toList)
    {origin image : Span} (hway : l.Way origin image) (query : Span) :
    project? origin image l.literal query = some (project origin image l.literal query) ∧
    (l.literal = true →
      (∀ cut, origin.intersect? query = some cut → query.covers origin = false →
        ∃ slice, clip origin image l.literal query = some slice ∧
          project origin image l.literal query = some slice ∧
          ((slice.start.toNat : ℤ) = ⌊exactImage origin image cut.start⌋ ∧
            (slice.stop.toNat : ℤ) = ⌈exactImage origin image cut.stop⌉) ∧
          slice.LeastCover (exactImage origin image cut.start) (exactImage origin image cut.stop) ∧
          slice.start < slice.stop ∧ image.covers slice = true) ∧
      ∀ offset, query = .caret offset → origin.contains offset = true →
        ∃ carried, project origin image l.literal query = some (.caret carried) ∧
          (carried.toNat : ℤ) = ⌊exactImage origin image offset⌋ ∧
          image.contains carried = true) := by
  have hproper := m.proper_of_mem hmem
  have hprojectable := hway.projectable hproper
  refine ⟨project?_eq_some hprojectable query, fun hliteral => ⟨?_, ?_⟩⟩
  · intro cut hcut hcovers
    obtain ⟨hne, hi⟩ := hway.copied hproper hliteral
    obtain ⟨hstart, hlt, hstop⟩ := Span.within_of_intersect? hcut
    have hinside := UInt32.le_of_lt (UInt32.lt_of_lt_of_le hlt hstop)
    have hbehind := UInt32.le_of_lt (UInt32.lt_of_le_of_lt hstart hlt)
    let slice : Span := ⟨projectDown origin image cut.start, projectUp origin image cut.stop⟩
    have hclip : clip origin image l.literal query = some slice := by
      rw [clip, hcovers, if_neg Bool.false_ne_true, hcut]
      exact if_pos hliteral
    have hproper : query.isEmpty = false := by
      obtain ⟨hfrom, hto, hcutlt⟩ := Span.intersect?_eq_some_iff.mp hcut
      rw [hfrom, hto] at hcutlt
      obtain ⟨-, -, -, -, hquery⟩ := overlap_within hcutlt
      exact Span.isEmpty_eq_false_of_lt hquery
    have hproject : project origin image l.literal query = some slice := by
      rw [project, hproper, if_neg Bool.false_ne_true, hclip]
    have hdown : slice.start.toNat = imageDown origin image cut.start :=
      toNat_projectDown (UInt32.le_of_lt hi) hne hstart hinside
    have hup : slice.stop.toNat = imageUp origin image cut.stop :=
      toNat_projectUp (UInt32.le_of_lt hi) hne hbehind hstop
    have hfloor : (slice.start.toNat : ℤ) = ⌊exactImage origin image cut.start⌋ := by
      rw [hdown, imageDown_eq_floor (UInt32.le_of_lt hi) hne hstart]
    have hceil : (slice.stop.toNat : ℤ) = ⌈exactImage origin image cut.stop⌉ := by
      rw [hup, imageUp_eq_ceil (UInt32.le_of_lt hi) hne hbehind]
    refine ⟨slice, hclip, hproject, ⟨hfloor, hceil⟩, .of_rounded hfloor hceil, ?_, ?_⟩
    · rw [UInt32.lt_iff_toNat_lt, hdown, hup]
      exact imageDown_lt_imageUp hne hi hstart hlt
    · rw [Span.covers_iff, UInt32.le_iff_toNat_le, UInt32.le_iff_toNat_le, hdown, hup]
      exact ⟨le_imageDown, imageUp_le (UInt32.le_of_lt hi) hne hbehind hstop⟩
  · rintro offset rfl hcontains
    obtain ⟨hne, hi⟩ := hway.copied hproper hliteral
    obtain ⟨hstart, hstop⟩ := Span.contains_iff.mp hcontains
    have hdown := toNat_projectDown (UInt32.le_of_lt hi) hne hstart (UInt32.le_of_lt hstop)
    refine ⟨projectDown origin image offset, ?_, ?_, ?_⟩
    · rw [project, if_pos (Span.isEmpty_iff.mpr rfl), hliteral]
      exact if_pos hcontains
    · rw [hdown, imageDown_eq_floor (UInt32.le_of_lt hi) hne hstart]
    · rw [Span.contains_iff, UInt32.le_iff_toNat_le, UInt32.lt_iff_toNat_lt, hdown]
      exact ⟨le_imageDown, imageDown_lt hi hstart hstop⟩

/-- A link over nearly all offsets, whose sides differ by three: both ways the products are nearly
as great as wide words can be. -/
theorem slice_is_least_cover_at_the_limit :
    let l : Link := ⟨⟨0, 4294967295⟩, ⟨3, 4294967295⟩, true⟩
    let m : SpanMap := ⟨#[l], _, by decide, rfl⟩
    let query : Span := ⟨2147483648, 4294967294⟩
    l ∈ m.links.toList ∧ l.Way l.target l.source ∧ l.Way l.source l.target ∧ l.literal = true ∧
      (l.target.intersect? query = some query ∧ query.covers l.target = false ∧
        ∃ slice, clip l.target l.source l.literal query = some slice ∧
          slice.LeastCover (exactImage l.target l.source query.start)
            (exactImage l.target l.source query.stop)) ∧
      l.source.contains 4294967294 = true ∧
        ∃ carried, project l.source l.target l.literal (.caret 4294967294) = some (.caret carried) ∧
          l.target.contains carried = true := by
  intro l m query
  have hmem : l ∈ m.links.toList := List.mem_cons_self
  have hcut : l.target.intersect? query = some query := by decide
  have hcovers : query.covers l.target = false := by decide
  have hcontains : l.source.contains 4294967294 = true := by decide
  obtain ⟨slice, hclip, -, -, hleast, -⟩ :=
    ((slice_is_least_cover m hmem .toSource query).2 rfl).1 query hcut hcovers
  obtain ⟨carried, hcaret, -, hinside⟩ :=
    ((slice_is_least_cover m hmem .toTarget (.caret 4294967294)).2 rfl).2 _ rfl hcontains
  exact ⟨hmem, .toSource, .toTarget, rfl, ⟨hcut, hcovers, slice, hclip, hleast⟩, hcontains, carried,
    hcaret, hinside⟩

end SpanMap

end MacroAtlas
