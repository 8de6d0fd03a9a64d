import Mathlib.Data.List.Perm.Basic
import MacroAtlas.Proofs.SpanMap.SourceIndex

/-!
# The source index as a stable sort

The links of a map are fewer than the 32-bit words, so every position has a word of its own. The
source index has each position once, by source starts and then by positions. There is only one such
order.
-/

namespace MacroAtlas

/-- A stable sort leaves elements that it could put in either order as they were. -/
theorem pairwise_mergeSort_of_pairwise {α : Type} {le : α → α → Bool} {r : α → α → Prop}
    {l : List α} (trans : ∀ a b c, le a b = true → le b c = true → le a c = true)
    (total : ∀ a b, (le a b || le b a) = true) (h : l.Pairwise r) :
    (l.mergeSort le).Pairwise fun a b => le a b = true ∧ (le b a = true → r a b) := by
  have hsorted := List.pairwise_mergeSort trans total l
  rw [List.pairwise_iff_forall_sublist] at h hsorted ⊢
  intro a b hab
  have hle := hsorted hab
  refine ⟨hle, fun hge => h ?_⟩
  -- The elements that are tied with `a` stand in the sorted list as they stood before.
  let tied (x : α) : Bool := le a x && le x a
  have htied : (l.filter tied).Pairwise fun x y => le x y = true := by
    rw [List.pairwise_iff_forall_sublist]
    intro x y hxy
    have hx := (List.mem_filter.mp (hxy.subset List.mem_cons_self)).2
    have hy := (List.mem_filter.mp (hxy.subset (List.mem_cons_of_mem x List.mem_cons_self))).2
    simp only [tied, Bool.and_eq_true] at hx hy
    exact trans x a y hx.2 hy.1
  have hkept : (l.filter tied).Sublist ((l.mergeSort le).filter tied) := by
    have hsub := (List.sublist_mergeSort trans total htied List.filter_sublist).filter tied
    simpa only [List.filter_filter, Bool.and_self] using hsub
  have hsame : l.filter tied = (l.mergeSort le).filter tied :=
    hkept.eq_of_length ((List.mergeSort_perm l le).filter tied).length_eq.symm
  have hpair := hab.filter tied
  have ha : tied a = true := by
    have hself := total a a
    simpa [tied] using hself
  have hb : tied b = true := by simp [tied, hle, hge]
  rw [List.filter_cons_of_pos ha, List.filter_cons_of_pos hb, List.filter_nil, ← hsame] at hpair
  exact hpair.trans List.filter_sublist

/-- The words below a count. -/
def positionsBelow (count : UInt32) : List UInt32 := (List.range count.toNat).map (·.toUInt32)

theorem map_toNat_positionsBelow (count : UInt32) :
    (positionsBelow count).map (·.toNat) = List.range count.toNat := by
  rw [positionsBelow, List.map_map]
  refine (List.map_congr_left fun i hi => ?_).trans (List.map_id _)
  have hi' := Nat.lt_trans (List.mem_range.mp hi) count.toNat_lt
  exact UInt32.toNat_ofNat_of_lt hi'

theorem pairwise_positionsBelow (count : UInt32) : (positionsBelow count).Pairwise (· < ·) := by
  have h := List.pairwise_lt_range (n := count.toNat)
  rw [← map_toNat_positionsBelow, List.pairwise_map] at h
  exact h.imp UInt32.lt_iff_toNat_lt.mpr

/-- Where the source of the link at a position starts; a position without a link counts as the start
of the text. -/
def sourceStartAt (links : List Link) (position : UInt32) : UInt32 :=
  (links[position.toNat]?.map (·.source.start)).getD 0

/-- The positions below the number of links, cut to a word, in the order of the source starts. -/
def countedOrder (links : List Link) : List UInt32 :=
  (positionsBelow links.length.toUInt32).mergeSort fun i j =>
    sourceStartAt links i ≤ sourceStartAt links j

namespace SpanMap

variable {links : List Link} {m : SpanMap} {i j : UInt32}

/-- The link at the one position has an earlier source start, or the same one and is the earlier
link. -/
def Precedes (m : SpanMap) (i j : UInt32) : Prop :=
  ∃ a b, m.linkAt? i = some a ∧ m.linkAt? j = some b ∧
    (a.source.start < b.source.start ∨ a.source.start = b.source.start ∧ i < j)

theorem Precedes.asymm (h : m.Precedes i j) : ¬ m.Precedes j i := by
  obtain ⟨a, b, ha, hb, hab⟩ := h
  rintro ⟨b', a', hb', ha', hba⟩
  obtain rfl := Option.some.inj (ha.symm.trans ha')
  obtain rfl := Option.some.inj (hb.symm.trans hb')
  grind

/-- The number of links is not cut off in a word. -/
theorem toNat_length_of_sound (h : firstFault? links = none) :
    links.length.toUInt32.toNat = links.length :=
  UInt32.toNat_ofNat_of_lt (length_lt_of_sound h)

/-- Sorting positions is as good as sorting links with their positions. -/
theorem bySource_eq_countedOrder (m : SpanMap) :
    m.bySource.toList = countedOrder m.links.toList := by
  have hpositions : m.links.toList.zipIdx.map (fun entry => entry.2.toUInt32) =
      positionsBelow m.links.toList.length.toUInt32 := by
    rw [positionsBelow, toNat_length_of_sound m.sound, List.range_eq_range',
      ← List.zipIdx_map_snd 0 m.links.toList, List.map_map]
    rfl
  rw [m.indexed, sourceOrder, countedOrder, ← hpositions]
  simp only [List.map_toArray]
  refine List.map_mergeSort fun a ha b hb => ?_
  have hstart : ∀ entry ∈ m.links.toList.zipIdx,
      sourceStartAt m.links.toList entry.2.toUInt32 = entry.1.source.start := by
    intro entry hentry
    have hlink := List.mem_zipIdx_iff_getElem?.mp hentry
    have hposition := (List.getElem?_eq_some_iff.mp hlink).1
    have hword : entry.2.toUInt32.toNat = entry.2 :=
      UInt32.toNat_ofNat_of_lt (Nat.lt_trans hposition m.size_lt)
    rw [sourceStartAt, hword, hlink]
    rfl
  rw [hstart a ha, hstart b hb]

/-- The index has every position once. -/
theorem map_toNat_bySource_perm (m : SpanMap) :
    (m.bySource.toList.map (·.toNat)).Perm (List.range m.size) := by
  have hsize : m.links.toList.length.toUInt32.toNat = m.size := toNat_length_of_sound m.sound
  rw [bySource_eq_countedOrder, countedOrder, ← hsize, ← map_toNat_positionsBelow]
  exact (List.mergeSort_perm _ _).map _

/-- There is a link at each position of the index. -/
theorem exists_linkAt?_of_mem_bySource {position : UInt32} (h : position ∈ m.bySource.toList) :
    position.toNat < m.size ∧ ∃ l, m.linkAt? position = some l := by
  have hlt := List.mem_range.mp (m.map_toNat_bySource_perm.mem_iff.mp (List.mem_map_of_mem h))
  exact ⟨hlt, _, Array.getElem?_eq_getElem hlt⟩

/-- The index follows the source starts, and among equal ones the positions. -/
theorem pairwise_precedes_bySource (m : SpanMap) : m.bySource.toList.Pairwise m.Precedes := by
  have hstable : m.bySource.toList.Pairwise fun i j =>
      sourceStartAt m.links.toList i ≤ sourceStartAt m.links.toList j ∧
        (sourceStartAt m.links.toList j ≤ sourceStartAt m.links.toList i → i < j) := by
    rw [bySource_eq_countedOrder]
    refine (pairwise_mergeSort_of_pairwise (fun i j k hij hjk => ?_) (fun i j => ?_)
      (pairwise_positionsBelow _)).imp fun h => ?_
    · simp only [decide_eq_true_eq] at hij hjk ⊢
      exact UInt32.le_trans hij hjk
    · simp only [Bool.or_eq_true, decide_eq_true_eq]
      exact UInt32.le_total _ _
    · simpa only [decide_eq_true_eq] using h
  refine hstable.imp_of_mem fun {i j} hi hj hij => ?_
  obtain ⟨-, a, ha⟩ := exists_linkAt?_of_mem_bySource hi
  obtain ⟨-, b, hb⟩ := exists_linkAt?_of_mem_bySource hj
  have hstart : ∀ {position l}, m.linkAt? position = some l →
      sourceStartAt m.links.toList position = l.source.start := by
    intro position l hl
    rw [linkAt?, ← Array.getElem?_toList] at hl
    rw [sourceStartAt, hl]
    rfl
  rw [hstart ha, hstart hb] at hij
  refine ⟨a, b, ha, hb, ?_⟩
  rcases UInt32.lt_or_eq_of_le hij.1 with hlt | heq
  · exact Or.inl hlt
  · exact Or.inr ⟨heq, hij.2 (heq ▸ UInt32.le_refl _)⟩

/-- No other order of the positions follows the source starts in this way. -/
theorem eq_bySource_of_pairwise {order : List UInt32}
    (hperm : (order.map (·.toNat)).Perm (List.range m.size)) (h : order.Pairwise m.Precedes) :
    order = m.bySource.toList := by
  have hsame : order.Perm m.bySource.toList :=
    (List.map_perm_map_iff fun _ _ => UInt32.toNat_inj.mp).mp
      (hperm.trans m.map_toNat_bySource_perm.symm)
  exact List.Perm.eq_of_pairwise (fun i j _ _ hij hji => absurd hji hij.asymm) h
    m.pairwise_precedes_bySource hsame

/-- The source index is the stable sort of all positions by source start, so maps are equal when
their links are. -/
theorem source_index_is_stable_sort {links : List Link} {m : SpanMap}
    (h : ofOrdered links = .ok m) :
    m.links.toList = links ∧ links.length < UInt32.size ∧
    links.length.toUInt32.toNat = links.length ∧
    m.bySource.toList = countedOrder links ∧
    (m.bySource.toList.map (·.toNat)).Perm (List.range links.length) ∧
    m.bySource.toList.Pairwise m.Precedes ∧
    (∀ position ∈ m.bySource.toList, ∃ l, m.linkAt? position = some l) ∧
    (∀ order : List UInt32, (order.map (·.toNat)).Perm (List.range links.length) →
      order.Pairwise m.Precedes → order = m.bySource.toList) ∧
    ∀ links' m', ofOrdered links' = .ok m' → (m = m' ↔ links = links') := by
  obtain rfl := ofOrdered_eq_ok_iff.mp h
  refine ⟨rfl, m.size_lt, toNat_length_of_sound m.sound, m.bySource_eq_countedOrder,
    m.map_toNat_bySource_perm, m.pairwise_precedes_bySource,
    fun position hp => (exists_linkAt?_of_mem_bySource hp).2,
    fun order => eq_bySource_of_pairwise, fun links' m' h' => ?_⟩
  obtain rfl := ofOrdered_eq_ok_iff.mp h'
  rw [eq_iff_links_eq, Array.toList_inj]

/-- Of three links the last two share a source start, which lies in front of that of the first
one. -/
theorem source_index_is_stable_sort_shared_start :
    let links : List Link := [⟨⟨0, 1⟩, ⟨5, 6⟩, true⟩, ⟨⟨1, 2⟩, ⟨3, 4⟩, true⟩,
      ⟨⟨4, 6⟩, ⟨3, 3⟩, false⟩]
    ∃ m, ofOrdered links = .ok m ∧ m.bySource.toList = [1, 2, 0] ∧
      ∀ m', ofOrdered links.tail = .ok m' → m ≠ m' := by
  intro links
  have hsound : firstFault? links = none := by decide
  have hm : ofOrdered links = .ok ⟨links.toArray, _, hsound, rfl⟩ := ofOrdered_eq_ok_iff.mpr rfl
  obtain ⟨-, -, -, -, -, -, -, hunique, hequal⟩ := source_index_is_stable_sort hm
  have hearlier : (3 : UInt32) < 5 := by decide
  have hbehind : (1 : UInt32) < 2 := by decide
  refine ⟨_, hm, (hunique [1, 2, 0] (by decide) ?_).symm, fun m' hm' heq => ?_⟩
  · refine .cons ?_ (List.pairwise_pair.mpr ⟨_, _, rfl, rfl, Or.inl hearlier⟩)
    rintro position (_ | ⟨_, _ | ⟨_, ⟨⟩⟩⟩)
    · exact ⟨_, _, rfl, rfl, Or.inr ⟨rfl, hbehind⟩⟩
    · exact ⟨_, _, rfl, rfl, Or.inl hearlier⟩
  · have htail : links = links.tail := (hequal _ m' hm').mp heq
    revert htail
    decide

end SpanMap

end MacroAtlas
