import MacroAtlas.Proofs.SpanMap.SourceIndex

/-!
# Which links form a map

Links form a map exactly when each is proper and no two of their targets share an offset, in
whatever order they are given. Sorting by target makes it enough to compare neighbours, and the
order of the input shows nowhere.
-/

namespace MacroAtlas

/-- No offset lies in both spans. -/
def Span.Apart (s t : Span) : Prop :=
  ∀ offset, ¬ (s.contains offset = true ∧ t.contains offset = true)

namespace Span.Apart

variable {s t : Span}

theorem symm (h : s.Apart t) : t.Apart s := fun offset hoffset => h offset hoffset.symm

/-- A span that ends before another starts is apart from it. -/
theorem of_le (h : s.stop ≤ t.start) : s.Apart t := by
  rintro offset ⟨hs, ht⟩
  have hbefore := (Span.contains_iff.mp hs).2
  have hbehind := (Span.contains_iff.mp ht).1
  exact UInt32.not_lt.mpr (UInt32.le_trans h hbehind) hbefore

/-- Of two spans that are apart, the one that starts first ends before the other starts. -/
theorem stop_le (h : s.Apart t) (ht : t.start < t.stop) (hle : s.start ≤ t.start) :
    s.stop ≤ t.start := by
  rw [← UInt32.not_lt]
  intro hlt
  exact h t.start ⟨Span.contains_iff.mpr ⟨hle, hlt⟩,
    Span.contains_iff.mpr ⟨UInt32.le_refl _, ht⟩⟩

end Span.Apart

/-- Links that can stand together, in whatever order they are given. -/
structure Compatible (links : List Link) : Prop where
  /-- Each link can stand in some map. -/
  proper : ∀ l ∈ links, l.Proper
  /-- The targets of links at different positions share no offset. -/
  apart : links.Pairwise fun a b => a.target.Apart b.target

/-- Links that can stand together can do so in any other order. -/
theorem Compatible.perm {links links' : List Link} (h : Compatible links)
    (hperm : links'.Perm links) : Compatible links' where
  proper l hl := h.proper l (hperm.mem_iff.mp hl)
  apart := hperm.symm.pairwise h.apart Span.Apart.symm

/-- Links in order start in order. -/
theorem start_le_of_le {a b : Link} (h : a.le b = true) : a.target.start ≤ b.target.start := by
  rcases Span.le_iff.mp h with hlt | ⟨heq, -⟩
  · exact UInt32.le_of_lt hlt
  · exact heq ▸ UInt32.le_refl _

/-- In the order of their targets, links are sound exactly when they can stand together. -/
theorem firstFault?_eq_none_iff_compatible {links : List Link}
    (hsorted : links.Pairwise fun a b => a.le b = true) :
    firstFault? links = none ↔ Compatible links := by
  rw [firstFault?_eq_none_iff]
  constructor
  · rintro ⟨hproper, hbehind⟩
    exact ⟨hproper, hbehind.imp Span.Apart.of_le⟩
  · intro h
    refine ⟨h.proper, (hsorted.and h.apart).imp_of_mem ?_⟩
    rintro a b - hb ⟨hle, hapart⟩
    exact hapart.stop_le (h.proper b hb).target (start_le_of_le hle)

/-- Sorting puts links in the order of their targets. -/
theorem pairwise_mergeSort_links (links : List Link) :
    (links.mergeSort Link.le).Pairwise fun a b => a.le b = true := by
  apply List.pairwise_mergeSort
  · intro a b c hab hbc
    exact Span.le_trans hab hbc
  · intro a b
    exact Span.le_total a.target b.target

/-- Sound lists of the same links are the same list. -/
theorem eq_of_sound_of_perm {links links' : List Link} (h : firstFault? links = none)
    (h' : firstFault? links' = none) (hperm : links.Perm links') : links = links' := by
  obtain ⟨hproper, hbehind⟩ := firstFault?_eq_none_iff.mp h
  obtain ⟨hproper', hbehind'⟩ := firstFault?_eq_none_iff.mp h'
  refine List.Perm.eq_of_pairwise (fun a b ha hb hab hba => ?_) hbehind hbehind' hperm
  -- Two targets do not each end before the other starts.
  have hlt := UInt32.lt_of_lt_of_le (hproper a ha).target hab
  have hle := UInt32.le_trans (UInt32.le_of_lt (hproper' b hb).target) hba
  exact absurd hle (UInt32.not_le.mpr hlt)

namespace LinkFault

/-- The links have the fault. -/
def HeldBy (links : List Link) : LinkFault → Prop
  | .inverted bounds => bounds.stop < bounds.start ∧ ∃ l ∈ links,
      l.target = ⟨bounds.start, bounds.stop⟩ ∨ l.source = ⟨bounds.start, bounds.stop⟩
  | .emptyTarget offset => ∃ l ∈ links, l.target = .caret offset
  | .emptyLiteralSource target => ∃ l ∈ links,
      l.target = target ∧ l.literal = true ∧ l.source.isEmpty = true
  | .overlappingTargets previous next => ∃ a b rest, links.Perm (a :: b :: rest) ∧
      a.target = previous ∧ b.target = next ∧
        ∃ offset, previous.contains offset = true ∧ next.contains offset = true

/-- Whether links have a fault does not depend on their order. -/
theorem HeldBy.perm {links links' : List Link} {fault : LinkFault} (h : fault.HeldBy links)
    (hperm : links.Perm links') : fault.HeldBy links' := by
  cases fault with
  | inverted bounds =>
      obtain ⟨hlt, l, hl, heq⟩ := h
      exact ⟨hlt, l, hperm.mem_iff.mp hl, heq⟩
  | emptyTarget offset =>
      obtain ⟨l, hl, heq⟩ := h
      exact ⟨l, hperm.mem_iff.mp hl, heq⟩
  | emptyLiteralSource target =>
      obtain ⟨l, hl, heq⟩ := h
      exact ⟨l, hperm.mem_iff.mp hl, heq⟩
  | overlappingTargets previous next =>
      obtain ⟨a, b, rest, hab, heq⟩ := h
      exact ⟨a, b, rest, hperm.symm.trans hab, heq⟩

end LinkFault

/-- The first fault is that of a link behind sound ones, told from the link in front of it. -/
theorem exists_of_firstFaultAfter?_eq_some {previous : Option Span} {links : List Link}
    {fault : LinkFault} (h : firstFaultAfter? previous links = some fault) :
    ∃ before l behind, links = before ++ l :: behind ∧
      firstFaultAfter? previous before = none ∧
      l.fault? ((before.getLast?.map (·.target)).or previous) = some fault := by
  induction links generalizing previous with
  | nil => cases h
  | cons first rest ih =>
      rw [firstFaultAfter?] at h
      cases hfirst : first.fault? previous with
      | some found =>
          rw [hfirst, Option.some_or] at h
          exact ⟨[], first, rest, rfl, rfl, hfirst.trans h⟩
      | none =>
          rw [hfirst, Option.none_or] at h
          obtain ⟨before, l, behind, rfl, hbefore, hl⟩ := ih h
          refine ⟨first :: before, l, behind, rfl, ?_, ?_⟩
          · rw [firstFaultAfter?, hfirst, Option.none_or]
            exact hbefore
          · rw [List.getLast?_cons]
            cases hlast : before.getLast? with
            | none => simpa [hlast] using hl
            | some last => simpa [hlast] using hl

/-- A fault that is reported of a link behind others that start no later is one that the links
have. -/
theorem heldBy_of_fault?_eq_some {before behind : List Link} {l : Link} {fault : LinkFault}
    (hsorted : ∀ a ∈ before, a.target.start ≤ l.target.start)
    (h : l.fault? (before.getLast?.map (·.target)) = some fault) :
    fault.HeldBy (before ++ l :: behind) := by
  have hmem : l ∈ before ++ l :: behind := List.mem_append_right _ List.mem_cons_self
  unfold Link.fault? at h
  split at h
  · next htarget =>
      obtain rfl := Option.some.inj h
      exact ⟨htarget, l, hmem, Or.inl rfl⟩
  split at h
  · next hsource =>
      obtain rfl := Option.some.inj h
      exact ⟨hsource, l, hmem, Or.inr rfl⟩
  next htarget hsource =>
  split at h
  · next hempty =>
      obtain rfl := Option.some.inj h
      refine ⟨l, hmem, Span.eq_of_bounds rfl (Span.isEmpty_iff.mp hempty).symm⟩
  split at h
  · next hliteral =>
      obtain rfl := Option.some.inj h
      obtain ⟨hl, hs⟩ := (Bool.and_eq_true _ _).mp hliteral
      exact ⟨l, hmem, rfl, hl, hs⟩
  next hempty hliteral =>
  cases hlast : before.getLast? with
  | none =>
      rw [hlast] at h
      cases h
  | some a =>
      rw [hlast] at h
      obtain ⟨hoverlap, heq⟩ := Option.ite_none_right_eq_some.mp h
      obtain rfl := Option.some.inj heq
      obtain ⟨front, rfl⟩ := List.getLast?_eq_some_iff.mp hlast
      have ha : a ∈ front ++ [a] := List.mem_append_right _ (List.mem_singleton_self a)
      have hne : l.target.start < l.target.stop :=
        UInt32.lt_of_le_of_ne (UInt32.not_lt.mp htarget) fun heq =>
          hempty (Span.isEmpty_iff.mpr heq)
      refine ⟨a, l, front ++ behind, ?_, rfl, rfl, l.target.start,
        Span.contains_iff.mpr ⟨hsorted a ha, hoverlap⟩,
        Span.contains_iff.mpr ⟨UInt32.le_refl _, hne⟩⟩
      rw [List.append_assoc]
      exact List.perm_middle.trans (List.perm_middle.cons a)

/-- The first fault of links in the order of their targets is one that they have. -/
theorem heldBy_of_firstFault?_eq_some {links : List Link}
    (hsorted : links.Pairwise fun a b => a.le b = true) {fault : LinkFault}
    (h : firstFault? links = some fault) : fault.HeldBy links := by
  obtain ⟨before, l, behind, rfl, hbefore, hl⟩ := exists_of_firstFaultAfter?_eq_some h
  rw [Option.or_none] at hl
  refine heldBy_of_fault?_eq_some (fun a ha => ?_) hl
  rw [List.pairwise_append] at hsorted
  exact start_le_of_le (hsorted.2.2 a ha l List.mem_cons_self)

namespace SpanMap

/-- Links in any order form a map exactly when the sorted ones are sound; then these are its
links. -/
theorem ofLinks_eq_ok_iff {links : List Link} {m : SpanMap} :
    ofLinks links = .ok m ↔ m.links.toList = links.mergeSort Link.le :=
  ofOrdered_eq_ok_iff

theorem exists_ofLinks_iff {links : List Link} :
    (∃ m, ofLinks links = .ok m) ↔ Compatible links := by
  have hperm := List.mergeSort_perm links Link.le
  have hsound := firstFault?_eq_none_iff_compatible (pairwise_mergeSort_links links)
  constructor
  · rintro ⟨m, hm⟩
    have hlinks := ofLinks_eq_ok_iff.mp hm
    exact (hsound.mp (hlinks ▸ m.sound)).perm hperm.symm
  · intro h
    have hnone := hsound.mpr (h.perm hperm)
    exact ⟨⟨_, _, by rwa [List.toList_toArray], rfl⟩, ofLinks_eq_ok_iff.mpr rfl⟩

/-- Links in another order form the same map. -/
theorem ofLinks_eq_ok_of_perm {links links' : List Link} {m : SpanMap} (h : ofLinks links = .ok m)
    (hperm : links'.Perm links) : ofLinks links' = .ok m := by
  have hcompatible := (exists_ofLinks_iff.mp ⟨m, h⟩).perm hperm
  have hsort := List.mergeSort_perm links' Link.le
  have hsound : firstFault? (links'.mergeSort Link.le) = none :=
    (firstFault?_eq_none_iff_compatible (pairwise_mergeSort_links links')).mpr
      (hcompatible.perm hsort)
  have hsame : m.links.toList.Perm (links'.mergeSort Link.le) := by
    rw [ofLinks_eq_ok_iff.mp h]
    exact (List.mergeSort_perm links _).trans (hperm.symm.trans hsort.symm)
  exact ofLinks_eq_ok_iff.mpr (eq_of_sound_of_perm m.sound hsound hsame)

/-- Links that form no map are refused for a fault that they have. -/
theorem heldBy_of_ofLinks_eq_error {links : List Link} {fault : MapFault}
    (h : ofLinks links = .error fault) : ∃ f, fault = .unsound f ∧ f.HeldBy links := by
  unfold ofLinks ofOrdered at h
  split at h
  · next f hf =>
      have hheld := heldBy_of_firstFault?_eq_some (pairwise_mergeSort_links links) hf
      exact ⟨f, (Except.error.inj h).symm, hheld.perm (List.mergeSort_perm links _)⟩
  · cases h

/-- Links are refused in every order or in none. -/
theorem exists_ofLinks_eq_error_of_perm {links links' : List Link} {fault : MapFault}
    (h : ofLinks links = .error fault) (hperm : links'.Perm links) :
    ∃ fault', ofLinks links' = .error fault' := by
  cases hlinks : ofLinks links' with
  | error fault' => exact ⟨fault', rfl⟩
  | ok m =>
      have hok := ofLinks_eq_ok_of_perm hlinks hperm.symm
      rw [hok] at h
      cases h

/-- The links of a map start in order, each behind the end of the one in front of it. -/
theorem pairwise_start_lt_and_stop_le (m : SpanMap) : m.links.toList.Pairwise fun a b =>
    a.target.start < b.target.start ∧ a.target.stop ≤ b.target.start := by
  apply (m.pairwise_target_bounds.and m.pairwise_targets).imp
  rintro a b ⟨⟨hstart, -⟩, hbehind⟩
  exact ⟨hstart, hbehind⟩

/-- Links in any order form a map exactly when each is proper and no two targets share an offset. -/
theorem ofLinks_accepts_compatible (links : List Link) :
    ((∃ m, ofLinks links = .ok m) ↔ Compatible links) ∧
    (∀ m, ofLinks links = .ok m →
      m.links.toList.Perm links ∧
      m.links.toList.Pairwise
        (fun a b => a.target.start < b.target.start ∧ a.target.stop ≤ b.target.start) ∧
      ∀ links', links'.Perm links → ofLinks links' = .ok m) ∧
    (∀ fault, ofLinks links = .error fault →
      (∃ f, fault = .unsound f ∧ f.HeldBy links) ∧
      ∀ links', links'.Perm links → ∃ fault', ofLinks links' = .error fault') := by
  refine ⟨exists_ofLinks_iff, fun m hm => ⟨?_, m.pairwise_start_lt_and_stop_le, ?_⟩,
    fun fault hf => ⟨heldBy_of_ofLinks_eq_error hf, ?_⟩⟩
  · rw [ofLinks_eq_ok_iff.mp hm]
    exact List.mergeSort_perm links _
  · intro links' hperm
    exact ofLinks_eq_ok_of_perm hm hperm
  · intro links' hperm
    exact exists_ofLinks_eq_error_of_perm hf hperm

/-- Two neighbours given backwards form a map, and two that share an offset form none. -/
theorem ofLinks_accepts_compatible_pair :
    let a : Link := ⟨⟨0, 4⟩, ⟨7, 7⟩, false⟩
    let b : Link := ⟨⟨4, 6⟩, ⟨0, 2⟩, true⟩
    let c : Link := ⟨⟨3, 5⟩, ⟨0, 2⟩, true⟩
    (∃ m, ofLinks [b, a] = .ok m ∧ ofLinks [a, b] = .ok m) ∧
      (∃ f, ofLinks [c, a] = .error (.unsound f) ∧ f.HeldBy [c, a]) ∧
        ∃ fault, ofLinks [a, c] = .error fault := by
  intro a b c
  have ha : a.Proper := ⟨by decide, by decide, by decide⟩
  have hb : b.Proper := ⟨by decide, by decide, by decide⟩
  have hcompatible : Compatible [b, a] := by
    refine ⟨?_, List.pairwise_pair.mpr (Span.Apart.of_le (by decide)).symm⟩
    rintro l (_ | ⟨_, _ | ⟨_, ⟨⟩⟩⟩)
    · exact hb
    · exact ha
  have hshared : ¬ Compatible [c, a] := fun h => List.pairwise_pair.mp h.apart 3 (by decide)
  obtain ⟨hiff, hok, -⟩ := ofLinks_accepts_compatible [b, a]
  obtain ⟨hiff', -, herror⟩ := ofLinks_accepts_compatible [c, a]
  obtain ⟨m, hm⟩ := hiff.mpr hcompatible
  obtain ⟨-, -, hany⟩ := hok m hm
  refine ⟨⟨m, hm, hany [a, b] (List.Perm.swap ..)⟩, ?_⟩
  cases hlinks : ofLinks [c, a] with
  | ok m => exact absurd (hiff'.mp ⟨m, hlinks⟩) hshared
  | error fault =>
      obtain ⟨⟨f, rfl, hheld⟩, hswapped⟩ := herror fault hlinks
      exact ⟨⟨f, rfl, hheld⟩, hswapped [a, c] (List.Perm.swap ..)⟩

end SpanMap

end MacroAtlas
