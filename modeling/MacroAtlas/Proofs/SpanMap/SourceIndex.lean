import MacroAtlas.Proofs.SpanMap.Scan

/-!
# The source index

The query towards the target takes the links whose sources start no later than the query ends, in
the order of the index, and sorts their answers. Answers lie inside their targets, which are apart,
so this restores the target order.
-/

namespace MacroAtlas

/-- Spans are ordered by their starts, and by their stops where the starts agree. -/
theorem Span.le_iff {s t : Span} :
    s.le t = true ↔ s.start < t.start ∨ s.start = t.start ∧ s.stop ≤ t.stop := by
  simp only [le, cmp, Ordering.isLE_then_iff_or, Std.isLE_compare, Std.compare_eq_lt,
    Std.compare_eq_iff_eq]

theorem Span.le_trans {s t u : Span} (hst : s.le t = true) (htu : t.le u = true) :
    s.le u = true := by
  rw [Span.le_iff] at hst htu ⊢
  grind

theorem Span.le_total (s t : Span) : (s.le t || t.le s) = true := by
  rw [Bool.or_eq_true, Span.le_iff, Span.le_iff]
  grind

theorem Span.le_antisymm {s t : Span} (hst : s.le t = true) (hts : t.le s = true) : s = t := by
  obtain ⟨_, _⟩ := s
  obtain ⟨_, _⟩ := t
  rw [Span.le_iff] at hst hts
  grind

namespace SpanMap

variable (m : SpanMap) {l : Link} {query : Span}

/-- The links in the order of the source index. -/
def linksBySource : List Link :=
  (m.links.toList.zipIdx.mergeSort fun a b => a.1.source.start ≤ b.1.source.start).map (·.1)

/-- The index lists every link once. -/
theorem linksBySource_perm : m.linksBySource.Perm m.links.toList := by
  have h := (List.mergeSort_perm m.links.toList.zipIdx
    fun a b => decide (a.1.source.start ≤ b.1.source.start)).map (·.1)
  rwa [List.zipIdx_map_fst] at h

/-- The index lists links by where their sources start. -/
theorem pairwise_linksBySource :
    m.linksBySource.Pairwise fun a b => a.source.start ≤ b.source.start := by
  rw [linksBySource, List.pairwise_map]
  refine (List.pairwise_mergeSort (fun a b c hab hbc => ?_) (fun a b => ?_) _).imp fun h => ?_
  · simp only [decide_eq_true_eq] at hab hbc ⊢
    exact UInt32.le_trans hab hbc
  · simp only [Bool.or_eq_true, decide_eq_true_eq]
    exact UInt32.le_total _ _
  · simpa only [decide_eq_true_eq] using h

/-- Each position of the index is that of a link. There are fewer links than offsets, so no position
is cut off. -/
theorem map_linkAt?_bySource : m.bySource.toList.map m.linkAt? = m.linksBySource.map some := by
  rw [m.indexed, sourceOrder, linksBySource]
  simp only [List.map_toArray, List.map_map]
  refine List.map_congr_left fun entry he => ?_
  have hlink := List.mem_zipIdx_iff_getElem?.mp ((List.mergeSort_perm _ _).mem_iff.mp he)
  have hposition : entry.2 < UInt32.size :=
    Nat.lt_trans (List.getElem?_eq_some_iff.mp hlink).1 m.size_lt
  have hword : entry.2.toUInt32.toNat = entry.2 := UInt32.toNat_ofNat_of_lt hposition
  rw [Function.comp_apply, linkAt?, hword, ← Array.getElem?_toList]
  exact hlink

/-- A link whose source starts behind the end of the query answers nothing. -/
theorem toTarget_eq_none (h : l ∈ m.links.toList) (hq : query.stop < l.source.start) :
    l.toTarget query = none := by
  have hproper := m.proper_of_mem h
  rw [Link.toTarget, project_eq_none_iff hproper.toTarget]
  intro answer hs
  exact UInt32.not_lt.mpr (hs.touches hproper.toTarget).2.1 hq

/-- The answers of the scan start one behind the other, and each ends before the next one starts. -/
theorem pairwise_scanToTarget (query : Span) :
    (m.scanToTarget query).Pairwise fun a b => a.start < b.start ∧ a.stop ≤ b.start := by
  rw [scanToTarget, List.pairwise_filterMap]
  refine m.pairwise_targets.imp_of_mem fun {a b} ha hb hab x hx y hy => ?_
  have hproper := m.proper_of_mem ha
  have hproper' := m.proper_of_mem hb
  have hsx := (project_eq_some_iff hproper.toTarget).mp hx
  have hsy := (project_eq_some_iff hproper'.toTarget).mp hy
  have hlt := hsx.start_lt hproper.target
  have hstop := (hsx.within hproper.toTarget).2.2
  have hstart := (hsy.within hproper'.toTarget).1
  exact ⟨UInt32.lt_of_lt_of_le hlt (UInt32.le_trans hab hstart),
    UInt32.le_trans hstop (UInt32.le_trans hab hstart)⟩

/-- What the link at a position of the index answers. -/
private def answerAt (query : Span) (position : UInt32) : Option Span :=
  (m.linkAt? position).bind (·.toTarget query)

/-- The link at a position of the index starts no later than the query ends. -/
private def startsInTime (query : Span) (position : UInt32) : Bool :=
  match m.linkAt? position with
  | some l => l.source.start ≤ query.stop
  | none => false

/-- The cut in the index parts the links that start in time from those that do not. -/
private theorem pairwise_startsInTime (query : Span) : m.bySource.toList.Pairwise fun a b =>
    m.startsInTime query b → m.startsInTime query a := by
  -- The test looks at the link only, and the index lists the links by source start.
  let inTime : Option Link → Bool
    | some l => l.source.start ≤ query.stop
    | none => false
  have hmap : (m.bySource.toList.map m.linkAt?).Pairwise fun a b => inTime b → inTime a := by
    rw [map_linkAt?_bySource, List.pairwise_map]
    refine m.pairwise_linksBySource.imp fun {a b} hab hb => ?_
    simp only [inTime, decide_eq_true_eq] at hb ⊢
    exact UInt32.le_trans hab hb
  exact List.pairwise_map.mp hmap

/-- The links in front of the cut give all answers. -/
private theorem filterMap_answerAt (query : Span) :
    (m.bySource.toList.take (partitionPoint m.bySource (m.startsInTime query))).filterMap
        (m.answerAt query) =
      m.linksBySource.filterMap (·.toTarget query) := by
  rw [filterMap_take_partitionPoint (m.pairwise_startsInTime query)]
  · have hall : m.bySource.toList.filterMap (m.answerAt query) =
        (m.bySource.toList.map m.linkAt?).filterMap fun l => l.bind (·.toTarget query) := by
      rw [List.filterMap_map]
      rfl
    rw [hall, map_linkAt?_bySource, List.filterMap_map]
    rfl
  · intro position hposition hlate
    have hmem : m.linkAt? position ∈ m.linksBySource.map some := by
      rw [← map_linkAt?_bySource]
      exact List.mem_map_of_mem hposition
    obtain ⟨l, hl, hat⟩ := List.mem_map.mp hmem
    rw [startsInTime, ← hat, decide_eq_false_iff_not, UInt32.not_le] at hlate
    rw [answerAt, ← hat, Option.bind_some]
    exact m.toTarget_eq_none (m.linksBySource_perm.mem_iff.mp hl) hlate

/-- Sorting the answers of all links in any order gives the answers of the scan. -/
private theorem mergeSort_eq_scanToTarget {answers : List Span}
    (h : answers.Perm (m.scanToTarget query)) :
    answers.mergeSort Span.le = m.scanToTarget query := by
  -- The order is total and antisymmetric, so a stable sort and any other come to the same.
  have hsorts : (answers.mergeSort Span.le).Pairwise fun a b => a.le b = true := by
    apply List.pairwise_mergeSort
    · intro a b c hab hbc
      exact Span.le_trans hab hbc
    · exact Span.le_total
  have hscan : (m.scanToTarget query).Pairwise fun a b => a.le b = true :=
    (m.pairwise_scanToTarget query).imp fun h => Span.le_iff.mpr (Or.inl h.1)
  exact List.Perm.eq_of_pairwise (fun _ _ _ _ => Span.le_antisymm) hsorts hscan
    ((List.mergeSort_perm answers _).trans h)

/-- Sorting the answers of the links in front of the cut gives what asking every link gives. -/
theorem toTarget_eq_scanToTarget : m.toTarget query = m.scanToTarget query := by
  have hextract :
      (m.bySource.extract 0 (partitionPoint m.bySource (m.startsInTime query))).toList =
        m.bySource.toList.take (partitionPoint m.bySource (m.startsInTime query)) := by
    simp [Array.toList_extract]
  have hperm : (m.linksBySource.filterMap (·.toTarget query)).Perm (m.scanToTarget query) :=
    m.linksBySource_perm.filterMap _
  rw [← m.mergeSort_eq_scanToTarget hperm, ← m.filterMap_answerAt query, ← hextract]
  rfl

/-- Towards the target the answers are the shares of the links. -/
theorem mem_toTarget_iff {answer : Span} : answer ∈ m.toTarget query ↔
    ∃ l ∈ m.links.toList, Share l.source l.target l.literal query answer := by
  rw [toTarget_eq_scanToTarget, scanToTarget, List.mem_filterMap]
  exact exists_congr fun l => and_congr_right fun hl =>
    project_eq_some_iff (m.proper_of_mem hl).toTarget

/-- The query towards the target comes to the scan, and none of its answers reaches into the
next. -/
theorem toTarget_eq_scan (m : SpanMap) (query : Span) :
    m.toTarget query = m.scanToTarget query ∧
      Scans Link.source Link.target query m.links.toList (m.toTarget query) ∧
      (m.toTarget query).Pairwise (fun a b => a.start < b.start ∧ a.stop ≤ b.start) ∧
      (m.toTarget query).Nodup ∧
      ∀ offset, (m.offsetToTarget offset).Pairwise (· < ·) := by
  have hapart : ∀ query, (m.toTarget query).Pairwise fun a b =>
      a.start < b.start ∧ a.stop ≤ b.start := by
    intro query
    rw [toTarget_eq_scanToTarget]
    exact m.pairwise_scanToTarget query
  refine ⟨m.toTarget_eq_scanToTarget, ?_, hapart query, (hapart query).imp ?_, fun offset => ?_⟩
  · rw [toTarget_eq_scanToTarget]
    exact scans_filterMap_project (fun l hl => (m.proper_of_mem hl).toTarget) query
  · rintro a b ⟨hlt, -⟩ rfl
    exact UInt32.lt_irrefl _ hlt
  · rw [offsetToTarget, List.pairwise_map]
    exact (hapart (.caret offset)).imp fun h => h.1

end SpanMap

end MacroAtlas
