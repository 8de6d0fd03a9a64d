import MacroAtlas.Proofs.SpanMap.SourceIndex

/-!
# There and back

What a query cuts out of a literal link is answered by a slice, and this slice is a query for the
way back. Starts are rounded down and ends up, so what comes back holds all that was cut out. Where
both sides have one length the trip ends where it began.
-/

namespace MacroAtlas

namespace Span

variable {s t cut : Span}

/-- The common part goes from the later start to the earlier end, and is not empty. -/
theorem intersect?_eq_some_iff : s.intersect? t = some cut ↔
    cut.start = max s.start t.start ∧ cut.stop = min s.stop t.stop ∧ cut.start < cut.stop := by
  obtain ⟨start, stop⟩ := cut
  simp only [intersect?, Option.ite_none_right_eq_some, Option.some.injEq, mk.injEq]
  constructor
  · rintro ⟨hlt, rfl, rfl⟩
    exact ⟨rfl, rfl, hlt⟩
  · rintro ⟨rfl, rfl, hlt⟩
    exact ⟨hlt, rfl, rfl⟩

/-- The common part is a part of the first span. -/
theorem within_of_intersect? (h : s.intersect? t = some cut) :
    s.start ≤ cut.start ∧ cut.start < cut.stop ∧ cut.stop ≤ s.stop := by
  obtain ⟨hstart, hstop, hlt⟩ := intersect?_eq_some_iff.mp h
  rw [hstart, hstop] at hlt ⊢
  obtain ⟨hle, hle', -⟩ := overlap_within hlt
  exact ⟨hle, hlt, hle'⟩

/-- A span that lies in another is their common part. -/
theorem intersect?_of_covers (h : s.covers t = true) (ht : t.start < t.stop) :
    s.intersect? t = some t := by
  obtain ⟨hstart, hstop⟩ := covers_iff.mp h
  refine intersect?_eq_some_iff.mpr ⟨?_, ?_, ht⟩
  · rw [← UInt32.toNat_inj, toNat_max]
    exact (Nat.max_eq_right hstart).symm
  · rw [← UInt32.toNat_inj, toNat_min]
    exact (Nat.min_eq_right hstop).symm

/-- What covers a span cuts it out as a whole. -/
theorem eq_of_intersect?_of_covers (h : s.intersect? t = some cut) (hc : t.covers s = true) :
    cut = s := by
  obtain ⟨hstart, hstop⟩ := covers_iff.mp hc
  obtain ⟨hcut, hcut', -⟩ := intersect?_eq_some_iff.mp h
  have hfirst : cut.start = s.start := by
    rw [hcut, ← UInt32.toNat_inj, toNat_max]
    exact Nat.max_eq_left hstart
  have hlast : cut.stop = s.stop := by
    rw [hcut', ← UInt32.toNat_inj, toNat_min]
    exact Nat.min_eq_left hstop
  exact eq_of_bounds hfirst hlast

end Span

section Rounding

variable {F L : Nat}

/-- Rounding down both ways does not go up. -/
private theorem down_down_le (a : Nat) (hL : 0 < L) : a * L / F * F / L ≤ a := by
  have hmul : a * L / F * F ≤ a * L := Nat.div_mul_le_self _ _
  calc a * L / F * F / L ≤ a * L / L := Nat.div_le_div_right hmul
    _ = a := Nat.mul_div_cancel _ hL

/-- A quotient that is rounded up reaches the dividend. -/
private theorem le_ceil_mul (n : Nat) (hF : 0 < F) : n ≤ (n + (F - 1)) / F * F := by
  have hlt : n + (F - 1) < F * ((n + (F - 1)) / F + 1) := Nat.lt_mul_div_succ _ hF
  rw [Nat.mul_add, Nat.mul_comm] at hlt
  omega

/-- Rounding up both ways does not go down. -/
private theorem le_up_up (b : Nat) (hF : 0 < F) (hL : 0 < L) :
    b ≤ ((b * L + (F - 1)) / F * F + (L - 1)) / L := by
  have hmul : b * L ≤ (b * L + (F - 1)) / F * F := le_ceil_mul _ hF
  rw [Nat.le_div_iff_mul_le hL]
  omega

/-- Between two offsets there is room after rounding. -/
private theorem floor_lt_ceil {a b : Nat} (h : a < b) (hF : 0 < F) (hL : 0 < L) :
    a * L / F < (b * L + (F - 1)) / F := by
  have hmul : a * L < b * L := Nat.mul_lt_mul_of_pos_right h hL
  have hreach : b * L ≤ (b * L + (F - 1)) / F * F := le_ceil_mul _ hF
  rw [Nat.div_lt_iff_lt_mul hF]
  omega

end Rounding

section Trip

variable {origin image : Span} {offset other back : UInt32}

/-- An offset that goes there and back rounded down comes back no later. -/
theorem imageDown_le_of_imageDown (hi : image.start < image.stop) (hle : origin.start ≤ offset)
    (hb : back.toNat = imageDown origin image offset) :
    imageDown image origin back ≤ offset.toNat := by
  rw [UInt32.lt_iff_toNat_lt] at hi
  rw [UInt32.le_iff_toNat_le] at hle
  have hdown := down_down_le (F := origin.stop.toNat - origin.start.toNat)
    (L := image.stop.toNat - image.start.toNat) (offset.toNat - origin.start.toNat) (by omega)
  have hshift : back.toNat - image.start.toNat =
      (offset.toNat - origin.start.toNat) * (image.stop.toNat - image.start.toNat) /
        (origin.stop.toNat - origin.start.toNat) := by
    rw [hb, imageDown, Nat.add_sub_cancel_left]
  rw [imageDown, hshift]
  omega

/-- An end that goes there and back rounded up comes back no earlier. -/
theorem le_imageUp_of_imageUp (ho : origin.start < origin.stop) (hi : image.start < image.stop)
    (hb : back.toNat = imageUp origin image offset) :
    offset.toNat ≤ imageUp image origin back := by
  rw [UInt32.lt_iff_toNat_lt] at ho hi
  have hup := le_up_up (F := origin.stop.toNat - origin.start.toNat)
    (L := image.stop.toNat - image.start.toNat) (offset.toNat - origin.start.toNat)
    (by omega) (by omega)
  have hshift : back.toNat - image.start.toNat =
      ((offset.toNat - origin.start.toNat) * (image.stop.toNat - image.start.toNat) +
        (origin.stop.toNat - origin.start.toNat - 1)) /
          (origin.stop.toNat - origin.start.toNat) := by
    rw [hb, imageUp, Nat.add_sub_cancel_left]
  rw [imageUp, hshift]
  omega

/-- Rounding leaves something of what lies between two offsets. -/
theorem imageDown_lt_imageUp (ho : origin.start < origin.stop) (hi : image.start < image.stop)
    (hle : origin.start ≤ offset) (h : offset < other) :
    imageDown origin image offset < imageUp origin image other := by
  rw [UInt32.lt_iff_toNat_lt] at ho hi h
  rw [UInt32.le_iff_toNat_le] at hle
  have hlt := floor_lt_ceil (a := offset.toNat - origin.start.toNat)
    (b := other.toNat - origin.start.toNat) (F := origin.stop.toNat - origin.start.toNat)
    (L := image.stop.toNat - image.start.toNat) (by omega) (by omega) (by omega)
  unfold imageDown imageUp
  omega

end Trip

/-- The start of a side has that of the other for its image. -/
theorem imageDown_start (origin image : Span) :
    imageDown origin image origin.start = image.start.toNat := by
  rw [imageDown, Nat.sub_self, Nat.zero_mul, Nat.zero_div, Nat.add_zero]

/-- The end of a side has that of the other for its image. -/
theorem imageUp_stop {origin image : Span} (ho : origin.start < origin.stop)
    (hi : image.start ≤ image.stop) : imageUp origin image origin.stop = image.stop.toNat := by
  rw [UInt32.lt_iff_toNat_lt] at ho
  rw [UInt32.le_iff_toNat_le] at hi
  have hF : 0 < origin.stop.toNat - origin.start.toNat := by omega
  rw [imageUp, Nat.mul_add_div hF, Nat.div_eq_of_lt (Nat.sub_one_lt_of_lt hF)]
  omega

/-- Both sides of a literal link hold text. -/
structure Copied (origin image : Span) : Prop where
  /-- There is text on the side that is asked. -/
  origin_lt : origin.start < origin.stop
  /-- There is text on the other side. -/
  image_lt : image.start < image.stop

namespace Copied

variable {origin image query cut : Span} (h : Copied origin image)

include h

theorem symm : Copied image origin := ⟨h.image_lt, h.origin_lt⟩

theorem projectable : Projectable origin image true :=
  ⟨UInt32.le_of_lt h.origin_lt, UInt32.le_of_lt h.image_lt, fun _ => h.origin_lt⟩

/-- What a query cuts out of a literal link is answered by the slice between its images, also where
the query covers the link. -/
theorem exists_share (hcut : origin.intersect? query = some cut) :
    ∃ answer, Share origin image true query answer ∧
      answer.start.toNat = imageDown origin image cut.start ∧
      answer.stop.toNat = imageUp origin image cut.stop := by
  have hi := UInt32.le_of_lt h.image_lt
  obtain ⟨hle, hlt, hle'⟩ := Span.within_of_intersect? hcut
  obtain ⟨hstart, hstop, -⟩ := Span.intersect?_eq_some_iff.mp hcut
  have hoverlap : max origin.start query.start < min origin.stop query.stop :=
    hstart ▸ hstop ▸ hlt
  have hproper : query.start ≠ query.stop := by
    obtain ⟨-, -, -, -, hquery⟩ := overlap_within hoverlap
    exact UInt32.ne_of_lt hquery
  by_cases hc : query.covers origin = true
  · obtain rfl := Span.eq_of_intersect?_of_covers hcut hc
    exact ⟨image, .whole hproper (Span.covers_iff.mp hc), (imageDown_start _ _).symm,
      (imageUp_stop h.origin_lt hi).symm⟩
  · have hdown := toNat_projectDown hi h.origin_lt hle
      (UInt32.le_of_lt (UInt32.lt_of_lt_of_le hlt hle'))
    have hup := toNat_projectUp hi h.origin_lt
      (UInt32.le_of_lt (UInt32.lt_of_le_of_lt hle hlt)) hle'
    refine ⟨⟨projectDown origin image cut.start, projectUp origin image cut.stop⟩, ?_, hdown, hup⟩
    rw [hstart] at hdown
    rw [hstop] at hup
    rw [hstart, hstop]
    exact .slice rfl hproper (fun hw => hc (Span.covers_iff.mpr hw)) hoverlap hdown hup

/-- Sides of equal length have as many offsets. -/
theorem toNat_length_eq (hlength : origin.length = image.length) :
    origin.stop.toNat - origin.start.toNat = image.stop.toNat - image.start.toNat := by
  rw [← Span.toNat_length (UInt32.le_of_lt h.origin_lt),
    ← Span.toNat_length (UInt32.le_of_lt h.image_lt), hlength]

/-- A trip there and back through one literal link. -/
theorem exists_trip (hcut : origin.intersect? query = some cut) :
    ∃ answer back, Share origin image true query answer ∧ answer.start < answer.stop ∧
      image.covers answer = true ∧ Share image origin true answer back ∧
      back.covers cut = true ∧ origin.covers back = true ∧
      (origin.length = image.length → back = cut) ∧
      (query.covers origin = true → answer = image ∧ back = origin) := by
  obtain ⟨hle, hlt, hle'⟩ := Span.within_of_intersect? hcut
  obtain ⟨answer, hanswer, hstart, hstop⟩ := h.exists_share hcut
  obtain ⟨hfrom, -, hto⟩ := hanswer.within h.projectable
  have hcovered : image.covers answer = true := Span.covers_iff.mpr ⟨hfrom, hto⟩
  have hne : answer.start < answer.stop := by
    rw [UInt32.lt_iff_toNat_lt, hstart, hstop]
    exact imageDown_lt_imageUp h.origin_lt h.image_lt hle hlt
  -- The answer lies inside the link, so on the way back it is cut out as a whole.
  obtain ⟨back, hback, hstart', hstop'⟩ :=
    h.symm.exists_share (Span.intersect?_of_covers hcovered hne)
  obtain ⟨hfrom', -, hto'⟩ := hback.within h.symm.projectable
  refine ⟨answer, back, hanswer, hne, hcovered, hback, ?_, Span.covers_iff.mpr ⟨hfrom', hto'⟩,
    fun hlength => ?_, fun hc => ?_⟩
  · refine Span.covers_iff.mpr ⟨?_, ?_⟩
    · rw [UInt32.le_iff_toNat_le, hstart']
      exact imageDown_le_of_imageDown h.image_lt hle hstart
    · rw [UInt32.le_iff_toNat_le, hstop']
      exact le_imageUp_of_imageUp h.origin_lt h.image_lt hstop
  · have heq := h.toNat_length_eq hlength
    rw [imageDown_of_length_eq h.origin_lt heq] at hstart
    rw [imageUp_of_length_eq h.origin_lt heq] at hstop
    rw [imageDown_of_length_eq h.image_lt heq.symm, hstart] at hstart'
    rw [imageUp_of_length_eq h.image_lt heq.symm, hstop] at hstop'
    rw [UInt32.le_iff_toNat_le] at hle
    rw [UInt32.lt_iff_toNat_lt] at hlt
    apply Span.eq_of_bounds
    · rw [← UInt32.toNat_inj]
      omega
    · rw [← UInt32.toNat_inj]
      omega
  · obtain rfl := Span.eq_of_intersect?_of_covers hcut hc
    have hwhole : answer = image := by
      apply Span.eq_of_bounds
      · rw [← UInt32.toNat_inj, hstart, imageDown_start]
      · rw [← UInt32.toNat_inj, hstop, imageUp_stop h.origin_lt (UInt32.le_of_lt h.image_lt)]
    subst hwhole
    refine ⟨rfl, Span.eq_of_bounds ?_ ?_⟩
    · rw [← UInt32.toNat_inj, hstart', imageDown_start]
    · rw [← UInt32.toNat_inj, hstop', imageUp_stop h.image_lt (UInt32.le_of_lt h.origin_lt)]

end Copied

theorem Link.Proper.copied {l : Link} (h : l.Proper) (hl : l.literal = true) :
    Copied l.target l.source :=
  ⟨h.target, h.literal hl⟩

namespace SpanMap

variable (m : SpanMap) {l : Link} {query answer : Span}

/-- The answer of each link is among those of the map. -/
theorem mem_toSource (hl : l ∈ m.links.toList) (ha : l.toSource query = some answer) :
    answer ∈ m.toSource query := by
  rw [toSource_eq_scanToSource, scanToSource, List.mem_filterMap]
  exact ⟨l, hl, ha⟩

theorem mem_toTarget (hl : l ∈ m.links.toList) (ha : l.toTarget query = some answer) :
    answer ∈ m.toTarget query := by
  rw [toTarget_eq_scanToTarget, scanToTarget, List.mem_filterMap]
  exact ⟨l, hl, ha⟩

/-- A part of one target is answered by its link alone. -/
theorem toSource_of_covers (hl : l ∈ m.links.toList) (hq : query.start < query.stop)
    (hc : l.target.covers query = true) : m.toSource query = (l.toSource query).toList := by
  obtain ⟨hstart, hstop⟩ := Span.covers_iff.mp hc
  obtain ⟨before, behind, hsplit⟩ := List.append_of_mem hl
  have hpairwise := m.pairwise_targets
  rw [hsplit, List.pairwise_append] at hpairwise
  obtain ⟨-, hbehind, hbefore⟩ := hpairwise
  have hbefore : before.filterMap (·.toSource query) = [] := by
    rw [List.filterMap_eq_nil_iff]
    intro other ho
    have hmem : other ∈ m.links.toList := hsplit ▸ List.mem_append_left _ ho
    have hapart := hbefore other ho l List.mem_cons_self
    exact m.toSource_eq_none hmem (Or.inl (UInt32.le_trans hapart hstart))
  have hbehind : behind.filterMap (·.toSource query) = [] := by
    rw [List.filterMap_eq_nil_iff]
    intro other ho
    have hmem : other ∈ m.links.toList :=
      hsplit ▸ List.mem_append_right _ (List.mem_cons_of_mem _ ho)
    have hapart := (List.pairwise_cons.mp hbehind).1 other ho
    exact m.toSource_eq_none hmem
      (Or.inr (Or.inr ⟨UInt32.ne_of_lt hq, UInt32.le_trans hstop hapart⟩))
  rw [toSource_eq_scanToSource, scanToSource, hsplit, List.filterMap_append, hbefore,
    List.nil_append, List.filterMap_cons, hbehind]
  cases l.toSource query <;> rfl

/-- No text is lost on the way through a literal link and back, whichever side the way starts
from. -/
theorem there_and_back (m : SpanMap) {l : Link} (hmem : l ∈ m.links.toList)
    (hliteral : l.literal = true) (query cut : Span) :
    (l.target.intersect? query = some cut →
      ∃ there back, l.toSource query = some there ∧ there ∈ m.toSource query ∧
        back ∈ m.toTarget there ∧ back.covers cut = true ∧ l.target.covers back = true ∧
        (l.target.length = l.source.length → back = cut) ∧
        (query.covers l.target = true → there = l.source ∧ back = l.target)) ∧
    (l.source.intersect? query = some cut →
      ∃ there back, l.toTarget query = some there ∧ there ∈ m.toTarget query ∧
        m.toSource there = [back] ∧ back.covers cut = true ∧ l.source.covers back = true ∧
        (l.target.length = l.source.length → back = cut) ∧
        (query.covers l.source = true → there = l.target ∧ back = l.source)) := by
  have hcopied := (m.proper_of_mem hmem).copied hliteral
  have htoSource : ∀ {query answer : Span}, Share l.target l.source true query answer →
      l.toSource query = some answer := by
    intro query answer hs
    rw [Link.toSource, hliteral]
    exact (project_eq_some_iff hcopied.projectable).mpr hs
  have htoTarget : ∀ {query answer : Span}, Share l.source l.target true query answer →
      l.toTarget query = some answer := by
    intro query answer hs
    rw [Link.toTarget, hliteral]
    exact (project_eq_some_iff hcopied.symm.projectable).mpr hs
  constructor
  · intro hcut
    obtain ⟨there, back, hthere, -, -, hback, hkept, hinside, hequal, hwhole⟩ :=
      hcopied.exists_trip hcut
    exact ⟨there, back, htoSource hthere, m.mem_toSource hmem (htoSource hthere),
      m.mem_toTarget hmem (htoTarget hback), hkept, hinside, hequal, hwhole⟩
  · intro hcut
    obtain ⟨there, back, hthere, hne, hcovered, hback, hkept, hinside, hequal, hwhole⟩ :=
      hcopied.symm.exists_trip hcut
    have hsingle : m.toSource there = [back] := by
      rw [m.toSource_of_covers hmem hne hcovered, htoSource hback]
      rfl
    exact ⟨there, back, htoTarget hthere, m.mem_toTarget hmem (htoTarget hthere), hsingle, hkept,
      hinside, fun hlength => hequal hlength.symm, hwhole⟩

/-- A part of a copy at half the length comes back wider than it went. -/
theorem there_and_back_halved :
    let l : Link := ⟨⟨0, 10⟩, ⟨0, 5⟩, true⟩
    let m : SpanMap := ⟨#[l, ⟨⟨10, 15⟩, ⟨0, 5⟩, true⟩], _, by decide, rfl⟩
    l ∈ m.links.toList ∧ l.literal = true ∧
      (l.target.intersect? ⟨3, 5⟩ = some ⟨3, 5⟩ ∧
        ∃ there back, there ∈ m.toSource ⟨3, 5⟩ ∧ back ∈ m.toTarget there ∧
          back.covers ⟨3, 5⟩ = true) ∧
      (l.source.intersect? ⟨4, 9⟩ = some ⟨4, 5⟩ ∧
        ∃ there back, there ∈ m.toTarget ⟨4, 9⟩ ∧ m.toSource there = [back] ∧
          back.covers ⟨4, 5⟩ = true) := by
  intro l m
  have hmem : l ∈ m.links.toList := List.mem_cons_self
  have hcut : l.target.intersect? ⟨3, 5⟩ = some ⟨3, 5⟩ := by decide
  have hcut' : l.source.intersect? ⟨4, 9⟩ = some ⟨4, 5⟩ := by decide
  obtain ⟨there, back, -, hthere, hback, hkept, -⟩ :=
    (there_and_back m hmem rfl ⟨3, 5⟩ ⟨3, 5⟩).1 hcut
  obtain ⟨there', back', -, hthere', hback', hkept', -⟩ :=
    (there_and_back m hmem rfl ⟨4, 9⟩ ⟨4, 5⟩).2 hcut'
  exact ⟨hmem, rfl, ⟨hcut, there, back, hthere, hback, hkept⟩,
    hcut', there', back', hthere', hback', hkept'⟩

end SpanMap

end MacroAtlas
