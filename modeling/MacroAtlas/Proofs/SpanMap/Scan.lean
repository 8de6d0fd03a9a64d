import MacroAtlas.Proofs.Search
import MacroAtlas.Proofs.SpanMap.Projection
import MacroAtlas.SpanMap.Query

/-!
# Asking every link

A scan goes through all links of a map and takes down the share of each. The query towards the
source looks at a part of the links only, and no link outside this part has a share, so it comes to
the same.
-/

namespace MacroAtlas

/-- The answers are the shares of the links, in the order of the links; links without a share are
passed over. -/
inductive Scans (origin image : Link → Span) (query : Span) : List Link → List Span → Prop where
  /-- There is no link left. -/
  | nil : Scans origin image query [] []
  /-- The next link has a share. -/
  | keep {l : Link} {answer : Span} {links : List Link} {answers : List Span}
      (share : Share (origin l) (image l) l.literal query answer)
      (rest : Scans origin image query links answers) :
      Scans origin image query (l :: links) (answer :: answers)
  /-- The next link has none. -/
  | skip {l : Link} {links : List Link} {answers : List Span}
      (none : ∀ answer, ¬ Share (origin l) (image l) l.literal query answer)
      (rest : Scans origin image query links answers) :
      Scans origin image query (l :: links) answers

/-- Projecting through each link in turn is a scan. -/
theorem scans_filterMap_project {origin image : Link → Span} {links : List Link}
    (h : ∀ l ∈ links, Projectable (origin l) (image l) l.literal) (query : Span) :
    Scans origin image query links
      (links.filterMap fun l => project (origin l) (image l) l.literal query) := by
  induction links with
  | nil => exact .nil
  | cons l rest ih =>
      have hl := h l List.mem_cons_self
      have hrest := ih fun l' hl' => h l' (List.mem_cons_of_mem _ hl')
      rw [List.filterMap_cons]
      cases hp : project (origin l) (image l) l.literal query with
      | none => exact .skip ((project_eq_none_iff hl).mp hp) hrest
      | some answer => exact .keep ((project_eq_some_iff hl).mp hp) hrest

namespace SpanMap

variable (m : SpanMap) {l : Link} {query : Span}

theorem proper_of_mem (h : l ∈ m.links.toList) : l.Proper :=
  (firstFault?_eq_none_iff.mp m.sound).1 l h

theorem pairwise_targets : m.links.toList.Pairwise fun a b => a.target.stop ≤ b.target.start :=
  (firstFault?_eq_none_iff.mp m.sound).2

/-- Targets that lie apart in list order start and end in list order. -/
theorem pairwise_target_bounds : m.links.toList.Pairwise fun a b =>
    a.target.start < b.target.start ∧ a.target.stop < b.target.stop := by
  refine m.pairwise_targets.imp_of_mem fun {a b} ha hb hab => ?_
  have htarget := (m.proper_of_mem ha).target
  have htarget' := (m.proper_of_mem hb).target
  exact ⟨UInt32.lt_of_lt_of_le htarget hab, UInt32.lt_of_le_of_lt hab htarget'⟩

/-- A link whose target does not touch the query answers nothing. -/
theorem toSource_eq_none (h : l ∈ m.links.toList)
    (hq : l.target.stop ≤ query.start ∨ query.stop < l.target.start ∨
      query.start ≠ query.stop ∧ query.stop ≤ l.target.start) : l.toSource query = none := by
  have hproper := m.proper_of_mem h
  rw [Link.toSource, project_eq_none_iff hproper.toSource]
  intro answer hs
  have htarget := hproper.target
  have htouches := hs.touches hproper.toSource
  grind

/-- An inverted query is answered by no link. -/
theorem scanToSource_of_inverted (h : query.Inverted) : m.scanToSource query = [] := by
  rw [scanToSource, List.filterMap_eq_nil_iff]
  intro l hl
  have hproper := m.proper_of_mem hl
  rw [Link.toSource, project_eq_none_iff hproper.toSource]
  intro answer hs
  exact UInt32.not_lt.mpr (hs.touches hproper.toSource).1 h

section ToSource

variable (query)

private theorem pairwise_ended : m.links.toList.Pairwise fun a b =>
    decide (b.target.stop ≤ query.start) → decide (a.target.stop ≤ query.start) := by
  refine m.pairwise_target_bounds.imp fun {a b} hab hb => ?_
  rw [decide_eq_true_eq] at hb ⊢
  exact UInt32.le_of_lt (UInt32.lt_of_lt_of_le hab.2 hb)

/-- The number of leading targets that end in front of the query. -/
private def ended : Nat := partitionPoint m.links fun l => l.target.stop ≤ query.start

/-- The links in front of the first target that ends behind the start of the query answer
nothing. -/
private theorem filterMap_drop_ended :
    (m.links.toList.drop (m.ended query)).filterMap (·.toSource query) = m.scanToSource query := by
  refine filterMap_drop_partitionPoint (m.pairwise_ended query) fun l hl hstop => ?_
  rw [decide_eq_true_eq] at hstop
  exact m.toSource_eq_none hl (Or.inl hstop)

/-- Of the targets that end behind a caret only the first can hold it. -/
private theorem filterMap_drop_ended_of_caret (he : query.start = query.stop) :
    (m.links.toList.drop (m.ended query)).filterMap (·.toSource query) =
      (m.links[m.ended query]?.bind (·.toSource query)).toList := by
  have hbehind := (partitionPoint_spec (m.pairwise_ended query)).2
  have hpairwise := m.pairwise_targets.drop (i := m.ended query)
  rw [← Array.getElem?_toList, ← List.head?_drop]
  change ∀ a ∈ m.links.toList.drop (m.ended query), _ at hbehind
  cases hdrop : m.links.toList.drop (m.ended query) with
  | nil => rfl
  | cons first rest =>
      rw [hdrop] at hbehind hpairwise
      have hfirst := hbehind first List.mem_cons_self
      rw [decide_eq_false_iff_not, UInt32.not_le] at hfirst
      -- The first target ends behind the caret, so the others start behind it.
      have hrest : rest.filterMap (·.toSource query) = [] := by
        rw [List.filterMap_eq_nil_iff]
        intro l hl
        have hmem : l ∈ m.links.toList := List.mem_of_mem_drop (hdrop ▸ List.mem_cons_of_mem _ hl)
        have hapart := (List.pairwise_cons.mp hpairwise).1 l hl
        refine m.toSource_eq_none hmem (Or.inr (Or.inl ?_))
        rw [← he]
        exact UInt32.lt_of_lt_of_le hfirst hapart
      rw [List.filterMap_cons, hrest, List.head?_cons, Option.bind_some]
      cases first.toSource query <;> rfl

/-- The links from the first target on that starts behind the end of the query answer nothing. -/
private theorem filterMap_takeWhile_started (hne : query.start ≠ query.stop) :
    ((m.links.toList.drop (m.ended query)).takeWhile fun l => l.target.start < query.stop).filterMap
        (·.toSource query) =
      (m.links.toList.drop (m.ended query)).filterMap (·.toSource query) := by
  refine filterMap_takeWhile (m.pairwise_target_bounds.drop.imp fun {a b} hab hb => ?_)
    fun l hl hstart => ?_
  · rw [decide_eq_true_eq] at hb ⊢
    exact UInt32.lt_trans hab.1 hb
  · rw [decide_eq_false_iff_not, UInt32.not_lt] at hstart
    exact m.toSource_eq_none (List.mem_of_mem_drop hl) (Or.inr (Or.inr ⟨hne, hstart⟩))

/-- Looking at the reachable links only gives what asking every link gives. -/
theorem toSource_eq_scanToSource : m.toSource query = m.scanToSource query := by
  rw [← m.filterMap_drop_ended query, toSource]
  by_cases he : query.start = query.stop
  · rw [if_pos (Span.isEmpty_iff.mpr he), m.filterMap_drop_ended_of_caret query he]
    rfl
  · have hextract : (m.links.extract (m.ended query) m.links.size).toList =
        m.links.toList.drop (m.ended query) := by
      simp [Array.toList_extract, List.take_of_length_le]
    rw [if_neg fun h => he (Span.isEmpty_iff.mp h), ← m.filterMap_takeWhile_started query he,
      ← hextract]
    rfl

/-- Towards the source the answers are the shares of the links. -/
theorem mem_toSource_iff {query answer : Span} : answer ∈ m.toSource query ↔
    ∃ l ∈ m.links.toList, Share l.target l.source l.literal query answer := by
  rw [toSource_eq_scanToSource, scanToSource, List.mem_filterMap]
  exact exists_congr fun l => and_congr_right fun hl =>
    project_eq_some_iff (m.proper_of_mem hl).toSource

/-- The query towards the source comes to the scan of all links in target order, and an inverted
query to nothing. -/
theorem toSource_eq_scan (m : SpanMap) (query : Span) :
    m.toSource query = m.scanToSource query ∧
      Scans Link.target Link.source query m.links.toList (m.toSource query) ∧
      (query.Inverted → m.toSource query = []) := by
  have hscan := m.toSource_eq_scanToSource query
  refine ⟨hscan, ?_, fun h => hscan.trans (m.scanToSource_of_inverted h)⟩
  rw [hscan]
  exact scans_filterMap_project (fun l hl => (m.proper_of_mem hl).toSource) query

/-- Two copies side by side and a query that goes backwards from one into the other. -/
theorem toSource_eq_scan_inverted :
    let m : SpanMap := ⟨#[⟨⟨0, 3⟩, ⟨10, 13⟩, true⟩, ⟨⟨3, 6⟩, ⟨10, 13⟩, true⟩], _, by decide, rfl⟩
    (⟨4, 2⟩ : Span).Inverted ∧ m.toSource ⟨4, 2⟩ = [] :=
  ⟨by decide, (toSource_eq_scan _ _).2.2 (by decide)⟩

end ToSource

end SpanMap

end MacroAtlas
