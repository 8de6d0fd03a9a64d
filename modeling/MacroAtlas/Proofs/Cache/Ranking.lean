import Mathlib.Data.List.Basic
import Mathlib.Data.List.Nodup
import MacroAtlas.Proofs.Cache.Offers
import MacroAtlas.Proofs.Cache.RecencyList

/-!
# What the queue of a cache says

A use in the queue counts if its file is still resident under its stamp. Stamps grow along the
queue, so the uses that count name each resident file once, in the order of last use. They spell a
recency list.
-/

namespace MacroAtlas

namespace Cache

/-- The resident map that a use stands for, unless its file was used again or dropped since. -/
def current? (c : Cache) (use : Use) : Option (FileName × SharedMap) :=
  ((c.resident[use.file]?).filter fun entry => entry.stamp == use.stamp).map fun entry =>
    (use.file, entry.shared)

/-- The cache after a use of a file, which has this map now. -/
def stamp (c : Cache) (file : FileName) (m : SharedMap) : Cache :=
  { c with
    resident := c.resident.insert file ⟨m, c.nextStamp⟩
    queue := c.queue.push ⟨file, c.nextStamp⟩
    nextStamp := c.nextStamp + 1 }

/-- The queue of the cache ranks the resident files as the list does. -/
structure Ranks (c : Cache) (l : RecencyList) : Prop where
  /-- Both have the same capacity. -/
  capacity_eq : c.capacity = l.capacity
  /-- Both have fared alike. -/
  stats_eq : c.stats = l.stats
  /-- Later uses have greater stamps. -/
  stamps : c.queue.toList.Pairwise fun a b => a.stamp < b.stamp
  /-- The next stamp is greater than all in the queue. -/
  fresh : ∀ use ∈ c.queue.toList, use.stamp < c.nextStamp
  /-- The last use of each resident file is in the queue. -/
  queued : ∀ file entry, c.resident[file]? = some entry → ⟨file, entry.stamp⟩ ∈ c.queue.toList
  /-- The uses that count spell the list. -/
  spelled : c.queue.toList.filterMap c.current? = l.entries

variable {c : Cache} {l : RecencyList} {held : MapId → Bool} {file : FileName} {m : SharedMap}

/-- A use is current where the resident entry of its file bears its stamp. -/
theorem current?_eq_some_iff {use : Use} {entry : FileName × SharedMap} :
    c.current? use = some entry ↔
      use.file = entry.1 ∧ c.resident[entry.1]? = some ⟨entry.2, use.stamp⟩ := by
  obtain ⟨f, m⟩ := entry
  simp only [current?, Option.map_eq_some_iff, Option.filter_eq_some_iff, beq_iff_eq, Prod.mk.injEq]
  constructor
  · rintro ⟨⟨shared, stamp⟩, ⟨hr, rfl⟩, rfl, rfl⟩
    exact ⟨rfl, hr⟩
  · rintro ⟨rfl, hr⟩
    exact ⟨_, ⟨hr, rfl⟩, rfl, rfl⟩

namespace Ranks

/-- The list holds what is resident. -/
theorem mem_entries_iff (h : c.Ranks l) :
    (file, m) ∈ l.entries ↔ ∃ stamp, c.resident[file]? = some ⟨m, stamp⟩ := by
  rw [← h.spelled, List.mem_filterMap]
  constructor
  · rintro ⟨use, -, he⟩
    exact ⟨use.stamp, (current?_eq_some_iff.mp he).2⟩
  · rintro ⟨stamp, hr⟩
    exact ⟨⟨file, stamp⟩, h.queued file _ hr, current?_eq_some_iff.mpr ⟨rfl, hr⟩⟩

/-- No file is in the list twice. -/
theorem nodup_files (h : c.Ranks l) : (l.entries.map (·.1)).Nodup := by
  rw [← h.spelled, List.Nodup, List.pairwise_map, List.pairwise_filterMap]
  refine h.stamps.imp fun {a b} hab x hx y hy hxy => ?_
  have hax := (current?_eq_some_iff.mp hx).2
  have hby := (current?_eq_some_iff.mp hy).2
  rw [hxy, hby] at hax
  have hstamp := congrArg Resident.stamp (Option.some.inj hax)
  exact absurd hstamp.symm (Nat.ne_of_lt hab)

/-- As many files are resident as are in the list. -/
theorem size_eq (h : c.Ranks l) : c.resident.size = l.entries.length := by
  have hperm : c.resident.keys.Perm (l.entries.map (·.1)) := by
    rw [List.perm_ext_iff_of_nodup c.resident.nodup_keys h.nodup_files]
    intro file
    rw [Std.ExtTreeMap.mem_keys, ← Std.ExtTreeMap.isSome_getElem?_iff_mem]
    simp only [List.mem_map, Prod.exists, exists_and_right, exists_eq_right, h.mem_entries_iff]
    constructor
    · intro hs
      obtain ⟨⟨m, stamp⟩, hr⟩ := Option.isSome_iff_exists.mp hs
      exact ⟨m, stamp, hr⟩
    · rintro ⟨m, stamp, hr⟩
      rw [hr]
      rfl
  rw [← Std.ExtTreeMap.length_keys, hperm.length_eq, List.length_map]

/-- Look-ups in the list find what is resident. -/
theorem find?_eq (h : c.Ranks l) (file : FileName) :
    l.find? file = (c.resident[file]?).map (·.shared) := by
  cases hf : l.find? file with
  | none =>
      cases hr : c.resident[file]? with
      | none => rfl
      | some entry =>
          have hmem : (file, entry.shared) ∈ l.entries := h.mem_entries_iff.mpr ⟨_, hr⟩
          exact absurd hmem (RecencyList.not_mem_entries_of_find?_eq_none hf _)
  | some m =>
      obtain ⟨stamp, hr⟩ := h.mem_entries_iff.mp (RecencyList.mem_entries_of_find? hf)
      rw [hr]
      rfl

/-- The cache itself keeps exactly the maps of the list. -/
theorem keeps_eq (h : c.Ranks l) (id : MapId) :
    c.keeps id = l.entries.any fun entry => entry.2.id == id := by
  rw [Bool.eq_iff_iff, keeps, List.any_eq_true, List.any_eq_true]
  constructor
  · rintro ⟨⟨f, entry⟩, hmem, hid⟩
    rw [Std.ExtTreeMap.mem_toList_iff_getElem?_eq_some] at hmem
    exact ⟨(f, entry.shared), h.mem_entries_iff.mpr ⟨_, hmem⟩, hid⟩
  · rintro ⟨⟨f, m⟩, hmem, hid⟩
    obtain ⟨stamp, hr⟩ := h.mem_entries_iff.mp hmem
    exact ⟨(f, ⟨m, stamp⟩), Std.ExtTreeMap.mem_toList_iff_getElem?_eq_some.mpr hr, hid⟩

/-- The same maps are alive in the cache and in the list. -/
theorem alive_eq (h : c.Ranks l) (held : MapId → Bool) : c.alive held = l.alive held := by
  funext id
  rw [alive, RecencyList.alive, h.keeps_eq]

/-- A new cache ranks the empty list. -/
theorem ofCapacity (capacity : Nat) : (ofCapacity capacity).Ranks (.ofCapacity capacity) := by
  refine ⟨rfl, rfl, List.Pairwise.nil, fun use hu => absurd hu List.not_mem_nil,
    fun file entry he => ?_, rfl⟩
  simp [Cache.ofCapacity] at he

/-- What is remembered has no rank. -/
theorem withRemembered (h : c.Ranks l) (remembered : Std.ExtTreeMap FileName SharedMap compare)
    (admitted : FileName → Option SharedMap) :
    Cache.Ranks { c with remembered } { l with admitted } :=
  ⟨h.capacity_eq, h.stats_eq, h.stamps, h.fresh, h.queued, h.spelled⟩

theorem withStats (h : c.Ranks l) (stats : CacheStats) :
    Cache.Ranks { c with stats } { l with stats } :=
  ⟨h.capacity_eq, rfl, h.stamps, h.fresh, h.queued, h.spelled⟩

/-- With nothing resident there is nothing to rank. -/
theorem emptied (h : c.Ranks l) :
    Cache.Ranks { c with resident := ∅, queue := .empty } { l with entries := [] } := by
  refine ⟨h.capacity_eq, h.stats_eq, List.Pairwise.nil, fun use hu => absurd hu List.not_mem_nil,
    fun file entry he => ?_, rfl⟩
  simp at he

/-- A file that is dropped leaves stale uses in the queue. -/
theorem erase (h : c.Ranks l) (file : FileName) :
    Cache.Ranks { c with resident := c.resident.erase file }
      { l with entries := l.without file } := by
  refine ⟨h.capacity_eq, h.stats_eq, h.stamps, h.fresh, fun other entry he => ?_, ?_⟩
  · simp only [Std.ExtTreeMap.getElem?_erase] at he
    split at he
    · cases he
    · exact h.queued other entry he
  · rw [RecencyList.without, ← h.spelled, List.filter_filterMap]
    refine List.filterMap_congr fun use _ => Option.ext fun entry => ?_
    simp only [Option.filter_eq_some_iff, current?_eq_some_iff, Std.ExtTreeMap.getElem?_erase,
      Std.LawfulEqCmp.compare_eq_iff_eq, decide_eq_true_eq]
    by_cases hf : file = entry.1
    · simp [hf]
    · simp [hf, Ne.symm hf]

/-- A use goes to the end of the queue, and older uses of its file become stale. -/
theorem stamp (h : c.Ranks l) (file : FileName) (m : SharedMap) :
    (c.stamp file m).Ranks (l.use file m) := by
  refine ⟨h.capacity_eq, h.stats_eq, ?_, fun use hu => ?_, fun other entry he => ?_, ?_⟩
  · rw [Cache.stamp, Recency.toList_push, List.pairwise_append]
    refine ⟨h.stamps, List.pairwise_singleton _ _, fun a ha b hb => ?_⟩
    rw [List.mem_singleton.mp hb]
    exact h.fresh a ha
  · rw [Cache.stamp, Recency.toList_push, List.mem_append, List.mem_singleton] at hu
    rcases hu with hu | rfl
    · exact Nat.lt_succ_of_lt (h.fresh use hu)
    · exact Nat.lt_succ_self _
  · simp only [Cache.stamp, Std.ExtTreeMap.getElem?_insert, Std.LawfulEqCmp.compare_eq_iff_eq]
      at he
    rw [Cache.stamp, Recency.toList_push, List.mem_append, List.mem_singleton]
    by_cases hf : file = other
    · rw [if_pos hf, Option.some.injEq] at he
      exact Or.inr (by rw [← he, hf])
    · rw [if_neg hf] at he
      exact Or.inl (h.queued other entry he)
  · -- Among the old uses those of this file become stale, and no other does.
    have hold : ∀ use ∈ c.queue.toList, (c.stamp file m).current? use =
        (c.current? use).filter fun entry => entry.1 ≠ file := by
      intro use hu
      have hstamp := Nat.ne_of_gt (h.fresh use hu)
      refine Option.ext fun entry => ?_
      simp only [Cache.stamp, Option.filter_eq_some_iff, current?_eq_some_iff,
        Std.ExtTreeMap.getElem?_insert, Std.LawfulEqCmp.compare_eq_iff_eq, decide_eq_true_eq]
      by_cases hf : file = entry.1
      · simp [hf, hstamp]
      · simp [hf, Ne.symm hf]
    rw [show (c.stamp file m).queue.toList = c.queue.toList ++ [⟨file, c.nextStamp⟩] from
      Recency.toList_push _ _, List.filterMap_append, List.filterMap_congr hold,
      ← List.filter_filterMap, h.spelled]
    congr 1
    have hnew : (c.stamp file m).current? ⟨file, c.nextStamp⟩ = some (file, m) :=
      current?_eq_some_iff.mpr ⟨rfl, by simp [Cache.stamp]⟩
    rw [List.filterMap_cons, hnew]
    rfl

/-- A stale use may be left out. -/
theorem skip {use : Use} {rest : List Use}
    (h : Cache.Ranks { c with queue := .ofList (use :: rest) } l) (hs : c.current? use = none) :
    Cache.Ranks { c with queue := .ofList rest } l := by
  obtain ⟨hcapacity, hstats, hstamps, hfresh, hqueued, hspelled⟩ := h
  simp only [Recency.toList_ofList] at hstamps hfresh hqueued hspelled
  refine ⟨hcapacity, hstats, ?_, fun u hu => ?_, fun file entry he => ?_, ?_⟩
  · rw [Recency.toList_ofList]
    exact (List.pairwise_cons.mp hstamps).2
  · rw [Recency.toList_ofList] at hu
    exact hfresh u (List.mem_cons_of_mem _ hu)
  · rw [Recency.toList_ofList]
    rcases List.mem_cons.mp (hqueued file entry he) with rfl | hmem
    · have hsome : c.current? ⟨file, entry.stamp⟩ = some (file, entry.shared) :=
        current?_eq_some_iff.mpr ⟨rfl, he⟩
      rw [hs] at hsome
      cases hsome
    · exact hmem
  · rw [Recency.toList_ofList]
    rw [List.filterMap_cons] at hspelled
    have hnone : current? { c with queue := .ofList (use :: rest) } use = none := hs
    rw [hnone] at hspelled
    exact hspelled

/-- Uses with the same stamp are the same. -/
theorem eq_of_stamp_eq (h : c.Ranks l) {a b : Use} (ha : a ∈ c.queue.toList)
    (hb : b ∈ c.queue.toList) (hs : a.stamp = b.stamp) : a = b := by
  have hnodup : (c.queue.toList.map (·.stamp)).Nodup := by
    rw [List.Nodup, List.pairwise_map]
    exact h.stamps.imp Nat.ne_of_lt
  exact List.inj_on_of_nodup_map hnodup ha hb hs

/-- One use for each resident file, in any order, sorts to the uses in the queue that count. -/
theorem mergeSort_uses (h : c.Ranks l) :
    (c.resident.toList.map fun e => (⟨e.1, e.2.stamp⟩ : Use)).mergeSort
        (fun a b => a.stamp ≤ b.stamp) =
      c.queue.toList.filter fun use => (c.current? use).isSome := by
  have hsorted : (c.queue.toList.filter fun use => (c.current? use).isSome).Pairwise
      fun a b => a.stamp < b.stamp := h.stamps.filter _
  have hnodup : (c.resident.toList.map fun e => (⟨e.1, e.2.stamp⟩ : Use)).Nodup := by
    rw [List.Nodup, List.pairwise_map]
    refine c.resident.distinct_keys_toList.imp fun {a b} hab he => hab ?_
    rw [Std.LawfulEqCmp.compare_eq_iff_eq]
    exact congrArg Use.file he
  -- Stamps differ, so there is only one order in which the uses can be sorted.
  have hperm : (c.resident.toList.map fun e => (⟨e.1, e.2.stamp⟩ : Use)).Perm
      (c.queue.toList.filter fun use => (c.current? use).isSome) := by
    rw [List.perm_ext_iff_of_nodup hnodup (hsorted.imp fun hab he => by simp [he] at hab)]
    intro use
    rw [List.mem_map, List.mem_filter, Option.isSome_iff_exists]
    constructor
    · rintro ⟨⟨file, entry⟩, hmem, rfl⟩
      rw [Std.ExtTreeMap.mem_toList_iff_getElem?_eq_some] at hmem
      exact ⟨h.queued file entry hmem, (file, entry.shared), current?_eq_some_iff.mpr ⟨rfl, hmem⟩⟩
    · rintro ⟨-, entry, he⟩
      obtain ⟨hfile, hr⟩ := current?_eq_some_iff.mp he
      exact ⟨(entry.1, ⟨entry.2, use.stamp⟩),
        Std.ExtTreeMap.mem_toList_iff_getElem?_eq_some.mpr hr, by rw [← hfile]⟩
  have hsorts : ((c.resident.toList.map fun e => (⟨e.1, e.2.stamp⟩ : Use)).mergeSort
      fun a b => a.stamp ≤ b.stamp).Pairwise fun a b => decide (a.stamp ≤ b.stamp) = true := by
    apply List.pairwise_mergeSort
    · intro a b c hab hbc
      rw [decide_eq_true_eq] at hab hbc ⊢
      exact Nat.le_trans hab hbc
    · intro a b
      rw [Bool.or_eq_true, decide_eq_true_eq, decide_eq_true_eq]
      exact Nat.le_total _ _
  have hperm' := (List.mergeSort_perm _ fun a b : Use => decide (a.stamp ≤ b.stamp)).trans hperm
  refine List.Perm.eq_of_pairwise (fun a b ha hb hab hba => ?_) hsorts
    (hsorted.imp fun hab => decide_eq_true (Nat.le_of_lt hab)) hperm'
  have ha' := (List.mem_filter.mp (hperm'.mem_iff.mp ha)).1
  exact h.eq_of_stamp_eq ha' (List.mem_filter.mp hb).1
    (Nat.le_antisymm (of_decide_eq_true hab) (of_decide_eq_true hba))

/-- Sweeping the queue leaves out the stale uses only. -/
theorem sweepQueue (h : c.Ranks l) : c.sweepQueue.Ranks l := by
  unfold Cache.sweepQueue
  split
  · exact h
  · have hqueue : Recency.toList (.ofList ((c.resident.toList.map fun e =>
        (⟨e.1, e.2.stamp⟩ : Use)).mergeSort fun a b => a.stamp ≤ b.stamp)) =
          c.queue.toList.filter fun use => (c.current? use).isSome := by
      rw [Recency.toList_ofList, h.mergeSort_uses]
    refine ⟨h.capacity_eq, h.stats_eq, ?_, fun use hu => ?_, fun file entry he => ?_, ?_⟩
    · rw [hqueue]
      exact h.stamps.filter _
    · rw [hqueue] at hu
      exact h.fresh use (List.mem_filter.mp hu).1
    · rw [hqueue, List.mem_filter, Option.isSome_iff_exists]
      exact ⟨h.queued file entry he, (file, entry.shared), current?_eq_some_iff.mpr ⟨rfl, he⟩⟩
    · rw [hqueue, List.filterMap_filter, ← h.spelled]
      refine List.filterMap_congr fun use _ => ?_
      cases hu : c.current? use with
      | none => rfl
      | some entry => exact hu

/-- If the oldest use counts, its file heads the list. Without the file the use is stale. -/
theorem dropHead {use : Use} {rest : List Use} {entry : FileName × SharedMap}
    (h : Cache.Ranks { c with queue := .ofList (use :: rest) } l) (he : c.current? use = some entry) :
    Cache.Ranks { c with resident := c.resident.erase use.file, queue := .ofList rest }
      { l with entries := l.entries.tail } := by
  have hentries : l.entries = entry :: rest.filterMap c.current? := by
    rw [← h.spelled, Recency.toList_ofList]
    exact List.filterMap_cons_some he
  have hfile : use.file = entry.1 := (current?_eq_some_iff.mp he).1
  have hnodup := h.nodup_files
  rw [hentries, List.map_cons, List.nodup_cons] at hnodup
  have htail : l.without use.file = l.entries.tail := by
    rw [RecencyList.without, hentries, List.tail_cons, List.filter_cons_of_neg (by simp [hfile]),
      List.filter_eq_self]
    intro other ho
    have hne : other.1 ≠ entry.1 := fun heq => hnodup.1 (heq ▸ List.mem_map_of_mem ho)
    simpa [hfile] using hne
  have herased := h.erase use.file
  rw [htail] at herased
  refine herased.skip (c := { c with resident := c.resident.erase use.file }) ?_
  simp [current?]

/-- Eviction drops as many of the least recently used files as are too many, whatever stale uses are
in between. -/
theorem evictFrom {uses : List Use} (h : Cache.Ranks { c with queue := .ofList uses } l) :
    (c.evictFrom uses).Ranks l.trim := by
  -- A stale use leaves the list as it is, one that counts takes the head of the list with it.
  induction uses generalizing c l with
  | nil =>
      have hnil : l.entries = [] := h.spelled.symm
      rw [RecencyList.trim_of_length_le (by simp [hnil])]
      exact h
  | cons use rest ih =>
      have hsize : c.resident.size = l.entries.length := h.size_eq
      have hcapacity : c.capacity = l.capacity := h.capacity_eq
      unfold Cache.evictFrom
      split
      · rw [RecencyList.trim_of_length_le (by omega)]
        exact h
      next hover =>
      split
      · next hcurrent =>
          obtain ⟨entry, hr, hstamp⟩ := (Option.any_eq_true _ _).mp hcurrent
          have he : c.current? use = some (use.file, entry.shared) := by
            rw [beq_iff_eq] at hstamp
            exact current?_eq_some_iff.mpr ⟨rfl, by rw [hr, ← hstamp]⟩
          have hstats : c.stats = l.stats := h.stats_eq
          have hcounted := (h.dropHead he).withStats
            { c.stats with evictions := c.stats.evictions + 1 }
          rw [← RecencyList.trim_tail (by omega), ← hstats]
          exact ih hcounted
      · next hstale =>
          refine ih (h.skip (Option.eq_none_iff_forall_ne_some.mpr fun entry he => hstale ?_))
          rw [(current?_eq_some_iff.mp he).1, (current?_eq_some_iff.mp he).2]
          simp

/-- Eviction trims the list. -/
theorem evict (h : c.Ranks l) (held : MapId → Bool) : (c.evict held).Ranks l.trim := by
  have hwithin : Cache.Ranks
      (if c.resident.size ≤ c.capacity then c else c.evictFrom c.queue.toList) l.trim := by
    split
    · next hfits =>
        rw [h.size_eq, h.capacity_eq] at hfits
        rw [RecencyList.trim_of_length_le hfits]
        exact h
    · refine evictFrom ?_
      rw [Recency.ofList_toList]
      exact h
  unfold Cache.evict
  generalize (if c.resident.size ≤ c.capacity then c else c.evictFrom c.queue.toList) = within
    at hwithin ⊢
  simp only
  split
  · exact hwithin.withRemembered _ _
  · exact hwithin

/-- A map that enters is admitted to the list. -/
theorem enter (h : c.Ranks l) (hb : l.entries.length ≤ l.capacity) (held : MapId → Bool)
    (file : FileName) (m : SharedMap) : (c.enter held file m).Ranks (l.enter file m) := by
  rw [RecencyList.enter_eq_trim hb, enter_eq]
  exact (((h.stamp file m).withRemembered _ _).evict held).sweepQueue

/-- Using a resident map. -/
theorem touch? (h : c.Ranks l) {used : Cache} (ht : c.touch? file = some (m, used)) :
    used.Ranks (l.use file m) ∧ l.find? file = some m ∧ used.remembered = c.remembered := by
  unfold Cache.touch? at ht
  split at ht
  · cases ht
  · next entry he =>
      obtain ⟨rfl, rfl⟩ := Prod.mk.inj (Option.some.inj ht)
      rw [h.find?_eq, he]
      exact ⟨(h.stamp file entry.shared).sweepQueue, rfl, by simp⟩

/-- Dropping and forgetting a file. -/
theorem invalidate (h : c.Ranks l) (file : FileName) :
    (c.invalidate file).Ranks (l.invalidate file) :=
  (h.erase file).withRemembered _ _

theorem clear (h : c.Ranks l) : c.clear.Ranks l.clear := h.emptied.withRemembered _ _

theorem relieve (h : c.Ranks l) (held : MapId → Bool) : (c.relieve held).Ranks l.relieve :=
  h.emptied.withRemembered _ l.admitted

end Ranks

end Cache

end MacroAtlas
