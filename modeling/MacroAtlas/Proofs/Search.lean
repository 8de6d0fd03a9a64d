import MacroAtlas.Search

/-!
# What halving finds

On an array whose leading elements are the ones that satisfy a test, `partitionPoint` is the number
of these. So a filter that keeps only elements on one side of the point may look at that side alone.
-/

namespace MacroAtlas

section PartitionPoint

variable {α β : Type} {xs : Array α} {p : α → Bool}

/-- A search between places that are known ends where the elements stop satisfying the test. -/
private theorem partitionPoint_go
    (hp : ∀ i j (hj : j < xs.size) (hij : i ≤ j), p xs[j] → p xs[i]) (lo hi : Nat)
    (bound : hi ≤ xs.size) (hlow : ∀ i (_ : i < xs.size), i < lo → p xs[i])
    (hhigh : ∀ i (_ : i < xs.size), hi ≤ i → p xs[i] = false) (hle : lo ≤ hi) :
    (∀ i (_ : i < xs.size), i < partitionPoint.go xs p lo hi bound → p xs[i]) ∧
      ∀ i (_ : i < xs.size), partitionPoint.go xs p lo hi bound ≤ i → p xs[i] = false := by
  fun_induction partitionPoint.go xs p lo hi bound with
  | case1 lo hi bound gap mid inside hmid ih =>
      refine ih (fun i _ hi => ?_) hhigh (by omega)
      exact hp i mid inside (by omega) hmid
  | case2 lo hi bound gap mid inside hmid ih =>
      refine ih hlow (fun i h hi => ?_) (by omega)
      rw [Bool.eq_false_iff]
      intro hpi
      exact hmid (hp mid i h hi hpi)
  | case3 lo hi bound gap => exact ⟨hlow, fun i h hi => hhigh i h (by omega)⟩

private theorem partitionPoint_go_le (lo hi : Nat) (bound : hi ≤ xs.size) (hle : lo ≤ hi) :
    partitionPoint.go xs p lo hi bound ≤ hi := by
  fun_induction partitionPoint.go xs p lo hi bound with
  | case1 lo hi bound gap mid inside hmid ih => exact ih (by omega)
  | case2 lo hi bound gap mid inside hmid ih => exact Nat.le_trans (ih (by omega)) (by omega)
  | case3 lo hi bound gap => exact hle

theorem partitionPoint_le_size (xs : Array α) (p : α → Bool) : partitionPoint xs p ≤ xs.size :=
  partitionPoint_go_le 0 xs.size (Nat.le_refl _) (Nat.zero_le _)

/-- All elements in front of the point satisfy the test, and none behind it does. -/
theorem partitionPoint_spec (hp : xs.toList.Pairwise fun a b => p b → p a) :
    (∀ a ∈ xs.toList.take (partitionPoint xs p), p a) ∧
      ∀ a ∈ xs.toList.drop (partitionPoint xs p), p a = false := by
  have hindex : ∀ i j (hj : j < xs.size) (hij : i ≤ j), p xs[j] → p xs[i] := by
    intro i j hj hij hpj
    rcases Nat.eq_or_lt_of_le hij with rfl | hlt
    · exact hpj
    · exact List.pairwise_iff_getElem.mp hp i j (by simp; omega) (by simpa using hj) hlt hpj
  obtain ⟨hfront, hback⟩ := partitionPoint_go hindex 0 xs.size (Nat.le_refl _)
    (fun i _ hi => absurd hi (Nat.not_lt_zero i)) (fun i h hi => absurd h (by omega))
    (Nat.zero_le _)
  refine ⟨fun a ha => ?_, fun a ha => ?_⟩
  · obtain ⟨i, hi, rfl⟩ := List.mem_take_iff_getElem.mp ha
    rw [Array.length_toList] at hi
    exact hfront i (by omega) (by unfold partitionPoint at hi; omega)
  · obtain ⟨i, hi, rfl⟩ := List.mem_drop_iff_getElem.mp ha
    rw [Array.length_toList] at hi
    exact hback (partitionPoint xs p + i) (by omega) (by unfold partitionPoint; omega)

/-- An element stands in front of the point exactly if it satisfies the test. -/
theorem lt_partitionPoint_iff (hp : xs.toList.Pairwise fun a b => p b → p a) {i : Nat} {a : α}
    (ha : xs[i]? = some a) : i < partitionPoint xs p ↔ p a := by
  obtain ⟨hfront, hback⟩ := partitionPoint_spec hp
  obtain ⟨hi, rfl⟩ := Array.getElem?_eq_some_iff.mp ha
  rw [← Array.length_toList] at hi
  rw [← Array.getElem_toList]
  constructor
  · intro hlt
    exact hfront _ (List.mem_take_iff_getElem.mpr ⟨i, Nat.lt_min.mpr ⟨hlt, hi⟩, rfl⟩)
  · intro hpi
    rw [← Nat.not_le]
    intro hle
    obtain ⟨d, rfl⟩ := Nat.exists_eq_add_of_le hle
    have hfails := hback _ (List.mem_drop_iff_getElem.mpr ⟨d, by omega, rfl⟩)
    rw [hpi] at hfails
    cases hfails

/-- A filter that drops whatever satisfies the test may start at the point. -/
theorem filterMap_drop_partitionPoint (hp : xs.toList.Pairwise fun a b => p b → p a)
    {f : α → Option β} (hf : ∀ a ∈ xs.toList, p a → f a = none) :
    (xs.toList.drop (partitionPoint xs p)).filterMap f = xs.toList.filterMap f := by
  have hfront : (xs.toList.take (partitionPoint xs p)).filterMap f = [] := by
    rw [List.filterMap_eq_nil_iff]
    intro a ha
    exact hf a (List.mem_of_mem_take ha) ((partitionPoint_spec hp).1 a ha)
  conv => rhs; rw [← List.take_append_drop (partitionPoint xs p) xs.toList, List.filterMap_append,
    hfront, List.nil_append]

/-- A filter that drops whatever fails the test may stop at the point. -/
theorem filterMap_take_partitionPoint (hp : xs.toList.Pairwise fun a b => p b → p a)
    {f : α → Option β} (hf : ∀ a ∈ xs.toList, p a = false → f a = none) :
    (xs.toList.take (partitionPoint xs p)).filterMap f = xs.toList.filterMap f := by
  have hback : (xs.toList.drop (partitionPoint xs p)).filterMap f = [] := by
    rw [List.filterMap_eq_nil_iff]
    intro a ha
    exact hf a (List.mem_of_mem_drop ha) ((partitionPoint_spec hp).2 a ha)
  conv => rhs; rw [← List.take_append_drop (partitionPoint xs p) xs.toList, List.filterMap_append,
    hback, List.append_nil]

end PartitionPoint

/-- The same for a list that is walked until the test fails. -/
theorem filterMap_takeWhile {α β : Type} {xs : List α} {p : α → Bool}
    (hp : xs.Pairwise fun a b => p b → p a) {f : α → Option β}
    (hf : ∀ a ∈ xs, p a = false → f a = none) :
    (xs.takeWhile p).filterMap f = xs.filterMap f := by
  induction xs with
  | nil => rfl
  | cons a rest ih =>
      obtain ⟨ha, hrest⟩ := List.pairwise_cons.mp hp
      cases hpa : p a with
      | true =>
          rw [List.takeWhile_cons_of_pos hpa, List.filterMap_cons, List.filterMap_cons,
            ih hrest fun b hb => hf b (List.mem_cons_of_mem _ hb)]
      | false =>
          have hnone : ∀ b ∈ a :: rest, f b = none := by
            intro b hb
            refine hf b hb ?_
            rcases List.mem_cons.mp hb with rfl | hb
            · exact hpa
            · rw [Bool.eq_false_iff]
              intro hpb
              rw [ha b hb hpb] at hpa
              cases hpa
          rw [List.takeWhile_cons_of_neg (by simp [hpa]), List.filterMap_eq_nil_iff.mpr hnone,
            List.filterMap_nil]

end MacroAtlas
