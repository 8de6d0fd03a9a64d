import MacroAtlas.Proofs.Cache.Calls

/-!
# Bounds on what a cache keeps

The queue is swept behind each use, so it is longer than its limit only where that many files are
resident. Each resident file has its last use in the queue, so an eviction always finds a file to
drop and ends within the capacity.
-/

namespace MacroAtlas

namespace Cache

/-- The eviction that gives up where the uses are exhausted before the capacity suffices. -/
def evictFrom? (c : Cache) : List Use → Option Cache
  | [] => if c.resident.size ≤ c.capacity then some { c with queue := .empty } else none
  | use :: rest =>
    if c.resident.size ≤ c.capacity then some { c with queue := .ofList (use :: rest) }
    else if (c.resident[use.file]?).any (·.stamp == use.stamp) then
      evictFrom? { c with
        resident := c.resident.erase use.file
        stats := { c.stats with evictions := c.stats.evictions + 1 } } rest
    else evictFrom? c rest

/-- Brings the cache back within its capacity, unless that fails. -/
def evict? (c : Cache) (held : MapId → Bool) : Option Cache :=
  let within? := if c.resident.size ≤ c.capacity then some c else c.evictFrom? c.queue.toList
  within?.map fun within =>
    if within.rememberedLimit < within.remembered.size then within.forgetDead held else within

/-- Enters a map for a file, unless the cache cannot be brought back within its capacity. -/
def enter? (c : Cache) (held : MapId → Bool) (file : FileName) (m : SharedMap) : Option Cache :=
  ((c.admitted file m).evict? held).map sweepQueue

variable {c : Cache} {l : RecencyList} {capacity : Nat}

@[simp] theorem capacity_sweepQueue (c : Cache) : c.sweepQueue.capacity = c.capacity := by
  unfold sweepQueue
  split <;> rfl

@[simp] theorem queueLimit_sweepQueue (c : Cache) : c.sweepQueue.queueLimit = c.queueLimit := by
  rw [queueLimit, queueLimit, capacity_sweepQueue]

@[simp] theorem rememberedLimit_sweepQueue (c : Cache) :
    c.sweepQueue.rememberedLimit = c.rememberedLimit := by
  rw [rememberedLimit, rememberedLimit, capacity_sweepQueue]

@[simp] theorem alive_sweepQueue (c : Cache) (held : MapId → Bool) :
    c.sweepQueue.alive held = c.alive held := by
  funext id
  rw [alive, alive, keeps, keeps, resident_sweepQueue]

/-- An eviction that ends within the capacity has not given up. -/
theorem evictFrom?_eq_some {uses : List Use} (h : (c.evictFrom uses).resident.size ≤ c.capacity) :
    c.evictFrom? uses = some (c.evictFrom uses) := by
  induction uses generalizing c with
  | nil => exact if_pos h
  | cons use rest ih =>
      unfold evictFrom? evictFrom
      unfold evictFrom at h
      split
      · rfl
      next hover =>
      rw [if_neg hover] at h
      split
      · next hcurrent =>
          rw [if_pos hcurrent] at h
          exact ih h
      · next hstale =>
          rw [if_neg hstale] at h
          exact ih h

/-- Eviction ends within the capacity. -/
theorem Ranks.size_evictFrom_le {uses : List Use}
    (h : Cache.Ranks { c with queue := .ofList uses } l) :
    (c.evictFrom uses).resident.size ≤ c.capacity := by
  have hcapacity : c.capacity = l.capacity := h.capacity_eq
  rw [h.evictFrom.size_eq, hcapacity, RecencyList.trim, List.length_drop]
  omega

/-- The last uses of the resident files are in the queue, so an eviction never gives up. -/
theorem Ranks.evict?_eq_some (h : c.Ranks l) (held : MapId → Bool) :
    c.evict? held = some (c.evict held) := by
  unfold Cache.evict? Cache.evict
  by_cases hfits : c.resident.size ≤ c.capacity
  · rw [if_pos hfits, if_pos hfits]
    rfl
  · have hqueue : Cache.Ranks { c with queue := .ofList c.queue.toList } l := by
      rw [Recency.ofList_toList]
      exact h
    rw [if_neg hfits, if_neg hfits, evictFrom?_eq_some hqueue.size_evictFrom_le]
    rfl

/-- The checked admission is never refused on a cache whose queue ranks a list. -/
theorem Ranks.enter?_eq_some (h : c.Ranks l) (held : MapId → Bool) (file : FileName)
    (m : SharedMap) : c.enter? held file m = some (c.enter held file m) := by
  have hadmitted : (c.admitted file m).Ranks (l.lengthen file m) :=
    (h.stamp file m).withRemembered _ _
  rw [enter?, hadmitted.evict?_eq_some, enter_eq]
  rfl

/-- After the dead are forgotten, every remembered map is alive. -/
theorem alive_of_remembered_forgetDead (c : Cache) (held : MapId → Bool) {file : FileName}
    {m : SharedMap} (h : (c.forgetDead held).remembered[file]? = some m) :
    c.alive held m.id = true := by
  simp only [forgetDead, Std.ExtTreeMap.getElem?_filter', Option.filter_eq_some_iff] at h
  exact h.2

/-- Behind an eviction, either not too many maps are remembered or all of them are alive. -/
theorem remembered_evict (c : Cache) (held : MapId → Bool) :
    (c.evict held).remembered.size ≤ (c.evict held).rememberedLimit ∨
      ∀ (file : FileName) (m : SharedMap), (c.evict held).remembered[file]? = some m →
        (c.evict held).alive held m.id = true := by
  have hevict : ∃ within : Cache, c.evict held =
      if within.rememberedLimit < within.remembered.size then within.forgetDead held
      else within := ⟨_, rfl⟩
  obtain ⟨within, hwithin⟩ := hevict
  rw [hwithin]
  by_cases hover : within.rememberedLimit < within.remembered.size
  · rw [if_pos hover]
    exact Or.inr fun file m hm => within.alive_of_remembered_forgetDead held hm
  · rw [if_neg hover]
    exact Or.inl (Nat.le_of_not_lt hover)

/-- The same behind an entry, which sweeps the queue beyond that. -/
theorem remembered_enter (c : Cache) (held : MapId → Bool) (file : FileName) (m : SharedMap) :
    (c.enter held file m).remembered.size ≤ (c.enter held file m).rememberedLimit ∨
      ∀ (other : FileName) (m' : SharedMap),
        (c.enter held file m).remembered[other]? = some m' →
          (c.enter held file m).alive held m'.id = true := by
  rw [enter_eq, remembered_sweepQueue, rememberedLimit_sweepQueue, alive_sweepQueue]
  exact (c.admitted file m).remembered_evict held

/-- The capacity is the one asked for, raised to one. -/
theorem Ranked.capacity_eq (h : c.Ranked capacity) : c.capacity = max capacity 1 := by
  obtain ⟨l, hranks, hsound⟩ := h
  rw [hranks.capacity_eq, hsound.capacity_eq]

/-- There are never more resident maps than the capacity. -/
theorem Ranked.size_le (h : c.Ranked capacity) : c.resident.size ≤ c.capacity := by
  obtain ⟨l, hranks, hsound⟩ := h
  rw [hranks.size_eq, hranks.capacity_eq]
  exact hsound.bounded

/-- A queue that is still too long after a sweep is so for the number of files. -/
theorem size_queue_sweepQueue_le (c : Cache) :
    c.sweepQueue.queue.size ≤ max c.resident.size c.queueLimit := by
  unfold sweepQueue
  split
  · next hshort => exact Nat.le_trans hshort (Nat.le_max_right _ _)
  · rw [Recency.size_eq_length_toList, Recency.toList_ofList, List.length_mergeSort,
      List.length_map, Std.ExtTreeMap.length_toList]
    exact Nat.le_max_left _ _

/-- The files are ranked within the capacity, and the queue is within its limit. -/
structure Bounded (capacity : Nat) (c : Cache) : Prop where
  /-- A recency list ranks the files. -/
  ranked : c.Ranked capacity
  /-- The queue has no more uses than it may have. -/
  swept : c.queue.size ≤ c.queueLimit

/-- No more maps are resident than this, and the queue has no more than four times as many uses, or
64. -/
def KeepsWithin (limit : Nat) (c : Cache) : Prop :=
  c.size ≤ limit ∧ c.queue.size ≤ max (min (4 * limit) wordMax) 64

namespace Bounded

/-- A new cache keeps the bounds. -/
theorem ofCapacity (capacity : Nat) : (ofCapacity capacity).Bounded capacity :=
  ⟨.ofCapacity capacity, Nat.zero_le _⟩

theorem withStats (h : c.Bounded capacity) (stats : CacheStats) :
    Bounded capacity { c with stats } := by
  obtain ⟨⟨l, hranks, hsound⟩, hswept⟩ := h
  exact ⟨⟨_, hranks.withStats stats, hsound.withStats stats⟩, hswept⟩

/-- Sweeping is enough, because the limit of the queue is no less than the capacity. -/
theorem of_sweepQueue (hword : capacity ≤ wordMax) (h : c.sweepQueue.Ranked capacity) :
    c.sweepQueue.Bounded capacity := by
  refine ⟨h, ?_⟩
  have hsize := h.size_le
  have hcapacity := h.capacity_eq
  have hone : 1 ≤ wordMax := by decide
  have hqueue := c.size_queue_sweepQueue_le
  rw [resident_sweepQueue] at hsize
  rw [← queueLimit_sweepQueue] at hqueue
  unfold queueLimit at hqueue ⊢
  omega

/-- Every operation that uses a map keeps the bounds. -/
theorem keptByUse (hword : capacity ≤ wordMax) (held : MapId → Bool) (file : FileName) :
    KeptByUse (Bounded capacity) held file where
  touch? c m used h ht := by
    have hranked := (Ranked.keptByUse capacity held file).touch? c m used h.ranked ht
    unfold Cache.touch? at ht
    split at ht
    · cases ht
    · obtain ⟨-, rfl⟩ := Prod.mk.inj (Option.some.inj ht)
      exact of_sweepQueue hword hranked
  withStats _ stats h := h.withStats stats
  enter c m h := of_sweepQueue hword ((Ranked.keptByUse capacity held file).enter c m h.ranked)

/-- A cache whose queue was emptied is within the limit. -/
theorem of_queue_eq_empty (h : c.Ranked capacity) (hqueue : c.queue = .empty) :
    c.Bounded capacity := by
  refine ⟨h, ?_⟩
  rw [hqueue]
  exact Nat.zero_le _

/-- One call keeps the bounds, also where its loader calls the cache again. -/
theorem act (hword : capacity ≤ wordMax) (c : Cache) (call : CacheCall) (h : c.Bounded capacity) :
    (c.act call).Bounded capacity := by
  cases call with
  | get held file => exact (keptByUse hword held file).get h
  | countMiss => exact h.withStats _
  | enter held file m => exact (keptByUse hword held file).enter c m h
  | refresh held file m => exact (keptByUse hword held file).refresh h m
  | invalidate file => exact ⟨h.ranked.invalidate file, h.swept⟩
  | clear => exact of_queue_eq_empty h.ranked.clear rfl
  | relieve held => exact of_queue_eq_empty (h.ranked.relieve held) rfl

/-- So does any sequence of calls. -/
theorem afterCalls (hword : capacity ≤ wordMax) (calls : List CacheCall) (h : c.Bounded capacity) :
    (c.afterCalls calls).Bounded capacity :=
  afterCalls_of_act (act hword) h calls

/-- What the bounds come to for a cache of this capacity. -/
theorem keepsWithin (h : c.Bounded capacity) : c.KeepsWithin (max capacity 1) := by
  have hsize := h.ranked.size_le
  have hswept := h.swept
  rw [queueLimit] at hswept
  rw [h.ranked.capacity_eq] at hsize hswept
  exact ⟨hsize, hswept⟩

end Bounded

/-- Resident maps, uses and remembered maps keep within their bounds, and an entry never runs out of
uses. -/
theorem bookkeeping_stays_bounded (capacity : UInt64) (calls : List CacheCall) :
    let limit := max capacity.toNat 1
    let c := (Cache.ofCapacity capacity.toNat).afterCalls calls
    c.KeepsWithin limit ∧
    (∀ held file found loading,
      (c.getOrLoad held file fun c => (found, c.afterCalls loading)).2.KeepsWithin limit) ∧
    ∀ stats held file m,
      let counted : Cache := { c with stats }
      let entered := counted.enter held file m
      counted.enter? held file m = some entered ∧
        (entered.remembered.size ≤ min (2 * limit) wordMax ∨
          ∀ (other : FileName) (m' : SharedMap), entered.remembered[other]? = some m' →
            entered.alive held m'.id = true) := by
  intro limit c
  have hword : capacity.toNat ≤ wordMax := Nat.le_sub_one_of_lt capacity.toNat_lt
  have hbounded : c.Bounded capacity.toNat :=
    (Bounded.ofCapacity capacity.toNat).afterCalls hword calls
  refine ⟨hbounded.keepsWithin, fun held file found loading => ?_, fun stats held file m => ?_⟩
  · rw [getOrLoad_eq_afterCalls]
    exact (hbounded.afterCalls hword _).keepsWithin
  · intro counted entered
    have hcounted : counted.Bounded capacity.toNat := hbounded.withStats stats
    have hentered := (Bounded.keptByUse hword held file).enter counted m hcounted
    obtain ⟨l, hranks, -⟩ := hcounted.ranked
    refine ⟨hranks.enter?_eq_some held file m, ?_⟩
    have hremembered := counted.remembered_enter held file m
    rw [rememberedLimit, hentered.ranked.capacity_eq] at hremembered
    exact hremembered

end Cache

end MacroAtlas
