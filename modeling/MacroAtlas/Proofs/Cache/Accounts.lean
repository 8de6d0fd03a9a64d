import MacroAtlas.Proofs.Cache.Calls

/-!
# The accounts of a cache

A look-up counts as a hit, a revival or a miss, and a loader is called just where a miss was
counted. A map that enters for another file makes one more resident, and each eviction one less, so
arrivals and departures balance.
-/

namespace MacroAtlas

/-- How a look-up fares. -/
inductive Fare where
  /-- It is served by a resident map. -/
  | hit
  /-- It is served by adopting a map that is still alive. -/
  | revival
  /-- It has to load. -/
  | miss
  deriving DecidableEq

namespace CacheStats

/-- The number of look-ups that have fared so. -/
def count (s : CacheStats) : Fare → Nat
  | .hit => s.hits
  | .revival => s.revived
  | .miss => s.misses

/-- One more look-up is counted, which has fared so, or no look-up is. -/
def Counts (before after : CacheStats) (fared : Option Fare) : Prop :=
  ∀ fare, after.count fare = before.count fare + if fared = some fare then 1 else 0

namespace Counts

variable {before between after : CacheStats} {fared : Option Fare}

theorem refl (s : CacheStats) : s.Counts s none := fun fare => by simp

/-- What follows without a look-up of its own leaves the count as it stands. -/
theorem trans (h : before.Counts between fared) (h' : between.Counts after none) :
    before.Counts after fared := fun fare => by
  rw [h' fare, h fare]
  simp

end Counts

end CacheStats

namespace Cache

variable {c : Cache} {held : MapId → Bool} {file : FileName} {m : SharedMap}

section Entering

/-- The number of maps that are resident or were evicted. -/
def placed (c : Cache) : Nat := c.size + c.stats.evictions

/-- By how many files a map that is admitted for the file makes the resident ones more. -/
def gain (c : Cache) (file : FileName) : Nat := if c.resident.contains file then 0 else 1

@[simp] theorem stats_sweepQueue (c : Cache) : c.sweepQueue.stats = c.stats := by
  unfold sweepQueue
  split <;> rfl

@[simp] theorem placed_sweepQueue (c : Cache) : c.sweepQueue.placed = c.placed := by
  rw [placed, placed, size, size, resident_sweepQueue, stats_sweepQueue]

/-- Eviction counts no look-up. -/
theorem counts_evictFrom (c : Cache) (uses : List Use) :
    c.stats.Counts (c.evictFrom uses).stats none := by
  induction uses generalizing c with
  | nil => exact .refl c.stats
  | cons use rest ih =>
      unfold evictFrom
      split
      · exact .refl c.stats
      split
      · exact fun fare => (ih _ fare).trans (by cases fare <;> rfl)
      · exact ih c

/-- A map that is evicted was resident. -/
theorem placed_evictFrom (c : Cache) (uses : List Use) : (c.evictFrom uses).placed = c.placed := by
  induction uses generalizing c with
  | nil => rfl
  | cons use rest ih =>
      unfold evictFrom
      split
      · rfl
      next hover =>
      split
      · next hcurrent =>
          have hmem : c.resident.contains use.file = true := by
            obtain ⟨entry, hentry, -⟩ := (Option.any_eq_true _ _).mp hcurrent
            rw [Std.ExtTreeMap.contains_eq_isSome_getElem?, hentry]
            rfl
          have hsize : (c.resident.erase use.file).size = c.resident.size - 1 :=
            Std.ExtTreeMap.size_erase.trans (if_pos hmem)
          rw [ih]
          simp only [placed, size, hsize]
          omega
      · exact ih c

/-- An eviction drops resident maps at most, and the remembered maps do not count. -/
theorem evict_eq_or (c : Cache) (held : MapId → Bool) : ∃ within : Cache,
    (within = c ∨ within = c.evictFrom c.queue.toList) ∧
      (c.evict held).stats = within.stats ∧ (c.evict held).placed = within.placed := by
  have hevict : c.evict held =
      let within := if c.resident.size ≤ c.capacity then c else c.evictFrom c.queue.toList
      if within.rememberedLimit < within.remembered.size then within.forgetDead held
      else within := rfl
  refine ⟨if c.resident.size ≤ c.capacity then c else c.evictFrom c.queue.toList, ?_, ?_⟩
  · split
    · exact Or.inl rfl
    · exact Or.inr rfl
  · rw [hevict]
    split
    all_goals
      simp only
      split
      · exact ⟨rfl, rfl⟩
      · exact ⟨rfl, rfl⟩

/-- Admitting a map counts no look-up. -/
theorem counts_enter (c : Cache) (held : MapId → Bool) (file : FileName) (m : SharedMap) :
    c.stats.Counts (c.enter held file m).stats none := by
  obtain ⟨within, hwithin, hstats, -⟩ := (c.admitted file m).evict_eq_or held
  rw [enter_eq, stats_sweepQueue, hstats]
  rcases hwithin with rfl | rfl
  · exact .refl c.stats
  · exact (c.admitted file m).counts_evictFrom _

/-- A map that enters for a file is one more unless the file is resident. -/
theorem placed_enter (c : Cache) (held : MapId → Bool) (file : FileName) (m : SharedMap) :
    (c.enter held file m).placed = c.placed + c.gain file := by
  have hadmitted : (c.admitted file m).placed = c.placed + c.gain file := by
    simp only [placed, size, admitted, gain, Std.ExtTreeMap.size_insert]
    split <;> omega
  obtain ⟨within, hwithin, -, hplaced⟩ := (c.admitted file m).evict_eq_or held
  rw [enter_eq, placed_sweepQueue, hplaced, ← hadmitted]
  rcases hwithin with rfl | rfl
  · rfl
  · exact (c.admitted file m).placed_evictFrom _

end Entering

section LookingUp

/-- How a look-up that does not load fares, if it is answered. -/
def fare? (c : Cache) (held : MapId → Bool) (file : FileName) : Option Fare :=
  if c.resident.contains file then some .hit else (c.living? held file).map fun _ => .revival

/-- A plain look-up never counts a miss: only the loader's caller does. -/
theorem fare?_ne_miss (c : Cache) (held : MapId → Bool) (file : FileName) :
    c.fare? held file ≠ some .miss := by
  unfold fare?
  split
  · simp
  · cases c.living? held file <;> simp

/-- A look-up of a resident map is a hit and stamps it as the latest use. -/
theorem get_of_resident {entry : Resident} (hr : c.resident[file]? = some entry)
    (held : MapId → Bool) : c.get held file = (some entry.shared,
      { (c.stamp file entry.shared).sweepQueue with
        stats := { c.stats with hits := c.stats.hits + 1 } }) := by
  simp only [get, touch?, hr, stats_sweepQueue]
  rfl

/-- A look-up of a map alive elsewhere revives it by admitting it again. -/
theorem get_of_living (hr : c.resident[file]? = none) (hl : c.living? held file = some m) :
    c.get held file = (some m, { c with
      stats := { c.stats with revived := c.stats.revived + 1 } }.enter held file m) := by
  simp only [get, touch?, hr, hl]

/-- A look-up that finds no map alive changes nothing. -/
theorem get_of_dead (hr : c.resident[file]? = none) (hl : c.living? held file = none) :
    c.get held file = (none, c) := by
  simp only [get, touch?, hr, hl]

/-- A look-up that does not load is counted if it is answered. -/
theorem counts_get (c : Cache) (held : MapId → Bool) (file : FileName) :
    (c.get held file).1.isSome = (c.fare? held file).isSome ∧
      c.stats.Counts (c.get held file).2.stats (c.fare? held file) := by
  have hcontains := Std.ExtTreeMap.contains_eq_isSome_getElem? (t := c.resident) (a := file)
  cases hr : c.resident[file]? with
  | some entry =>
      rw [fare?, hcontains, hr, get_of_resident hr held]
      exact ⟨rfl, fun fare => by cases fare <;> rfl⟩
  | none =>
      cases hl : c.living? held file with
      | none =>
          rw [fare?, hcontains, hr, get_of_dead hr hl, hl]
          exact ⟨rfl, .refl c.stats⟩
      | some m =>
          rw [fare?, hcontains, hr, get_of_living hr hl, hl]
          refine ⟨rfl, .trans (fun fare => ?_) (counts_enter _ held file m)⟩
          cases fare <;> rfl

/-- A look-up that adopts a map enters it, and any other leaves the resident files alone. -/
theorem placed_get (c : Cache) (held : MapId → Bool) (file : FileName) :
    (c.get held file).2.placed =
      c.placed + if c.fare? held file = some .revival then c.gain file else 0 := by
  have hcontains := Std.ExtTreeMap.contains_eq_isSome_getElem? (t := c.resident) (a := file)
  cases hr : c.resident[file]? with
  | some entry =>
      have hmem : c.resident.contains file = true := by rw [hcontains, hr]; rfl
      have hsize := Std.ExtTreeMap.size_insert (t := c.resident) (k := file)
        (v := (⟨entry.shared, c.nextStamp⟩ : Resident))
      rw [if_pos hmem] at hsize
      rw [fare?, if_pos hmem, get_of_resident hr held]
      simp only [placed, size, resident_sweepQueue, stamp, hsize]
      rfl
  | none =>
      have hmem : c.resident.contains file = false := by rw [hcontains, hr]; rfl
      cases hl : c.living? held file with
      | none =>
          rw [get_of_dead hr hl, fare?, hmem, hl]
          rfl
      | some m =>
          rw [get_of_living hr hl, placed_enter, fare?, hmem, hl]
          rfl

end LookingUp

section Loading

/-- A look-up with a loader that has a state of its own beside the cache. -/
def getOrLoadWith {σ : Type} (c : Cache) (held : MapId → Bool) (file : FileName)
    (load : Cache → σ → (Option SharedMap × Cache) × σ) (own : σ) :
    (Option SharedMap × Cache) × σ :=
  match c.get held file with
  | (some m, after) => ((some m, after), own)
  | (none, after) =>
    match load after.countMiss own with
    | ((none, loaded), own) => ((none, loaded), own)
    | ((some m, loaded), own) => ((some m, loaded.enter held file m), own)

/-- A loader that lists the caches it is called on. -/
def listing (load : Cache → Option SharedMap × Cache) (c : Cache) (calls : List Cache) :
    (Option SharedMap × Cache) × List Cache :=
  (load c, calls ++ [c])

variable (load : Cache → Option SharedMap × Cache)

/-- A look-up that is answered does not call its loader. -/
theorem getOrLoadWith_of_fare {fare : Fare} (h : c.fare? held file = some fare) :
    c.getOrLoadWith held file (listing load) [] = (c.getOrLoad held file load, []) ∧
      (c.getOrLoad held file load).2 = (c.get held file).2 := by
  obtain ⟨hanswer, -⟩ := c.counts_get held file
  rw [h] at hanswer
  obtain ⟨m, hm⟩ := Option.isSome_iff_exists.mp hanswer
  have hget : c.get held file = (some m, (c.get held file).2) := Prod.ext hm rfl
  rw [getOrLoadWith, getOrLoad, hget]
  exact ⟨rfl, rfl⟩

/-- A look-up that is not answered calls its loader once, behind the miss. -/
theorem getOrLoadWith_of_miss (h : c.fare? held file = none) :
    c.getOrLoadWith held file (listing load) [] =
        (c.getOrLoad held file load, [c.countMiss]) ∧
      (load c.countMiss).2.stats.Counts (c.getOrLoad held file load).2.stats none := by
  have hr : c.resident[file]? = none := by
    rw [fare?, Std.ExtTreeMap.contains_eq_isSome_getElem?] at h
    cases hr : c.resident[file]? with
    | none => rfl
    | some entry =>
        rw [hr] at h
        cases h
  have hl : c.living? held file = none := by
    rw [fare?, Std.ExtTreeMap.contains_eq_isSome_getElem?, hr] at h
    exact Option.map_eq_none_iff.mp h
  rw [getOrLoadWith, getOrLoad, get_of_dead hr hl]
  simp only [listing, List.nil_append]
  rcases load c.countMiss with ⟨_ | m, loaded⟩
  · exact ⟨rfl, .refl loaded.stats⟩
  · exact ⟨rfl, loaded.counts_enter held file m⟩

/-- A look-up with a loader is counted once, and its loader is called where that is as a miss. -/
theorem counts_getOrLoad (c : Cache) (held : MapId → Bool) (file : FileName) :
    let ended := c.getOrLoad held file load
    let fare := (c.fare? held file).getD .miss
    ∃ looked : Cache, c.stats.Counts looked.stats (some fare) ∧
      c.getOrLoadWith held file (listing load) [] =
        (ended, if fare = .miss then [looked] else []) ∧
      (if fare = .miss then (load looked).2 else looked).stats.Counts ended.2.stats none := by
  cases hfare : c.fare? held file with
  | none =>
      obtain ⟨hcalled, hcounts⟩ := getOrLoadWith_of_miss load hfare
      refine ⟨c.countMiss, fun fare => ?_, hcalled, hcounts⟩
      cases fare <;> rfl
  | some fare =>
      have hanswered : fare ≠ .miss := by
        rintro rfl
        exact c.fare?_ne_miss held file hfare
      obtain ⟨hcalled, hended⟩ := getOrLoadWith_of_fare load hfare
      obtain ⟨-, hcounts⟩ := c.counts_get held file
      rw [hfare] at hcounts
      refine ⟨(c.get held file).2, hcounts, ?_, ?_⟩
      · rw [Option.getD_some, if_neg hanswered]
        exact hcalled
      · rw [Option.getD_some, if_neg hanswered, hended]
        exact .refl _

end Loading

section Runs

/-- The file that a call admits a map for, if it does. -/
def admits? (c : Cache) : CacheCall → Option FileName
  | .get held file => if c.fare? held file = some .revival then some file else none
  | .enter _ file _ => some file
  | .refresh held file m => if (c.refresh held file m).1 then some file else none
  | _ => none

/-- The number of maps that a call admits for files that are not resident. -/
def arrivals (c : Cache) (call : CacheCall) : Nat := (c.admits? call).elim 0 c.gain

/-- The number of resident maps that a call drops, those apart that are evicted. -/
def departures (c : Cache) : CacheCall → Nat
  | .invalidate file => if c.resident.contains file then 1 else 0
  | .clear => c.size
  | .relieve _ => c.size
  | _ => 0

/-- What the calls of a run come to together. -/
def total (count : Cache → CacheCall → Nat) (c : Cache) : List CacheCall → Nat
  | [] => 0
  | call :: rest => count c call + total count (c.act call) rest

/-- Refreshing an entry counts no look-up. -/
theorem counts_refresh (c : Cache) (held : MapId → Bool) (file : FileName) (m : SharedMap) :
    c.stats.Counts (c.refresh held file m).2.stats none := by
  unfold refresh
  split
  · exact c.counts_enter held file m
  · exact .refl c.stats

/-- A refresh that finds a live map brings in one entry, unless the file had one. -/
theorem placed_refresh (c : Cache) (held : MapId → Bool) (file : FileName) (m : SharedMap) :
    (c.refresh held file m).2.placed =
      c.placed + if (c.refresh held file m).1 then c.gain file else 0 := by
  unfold refresh
  split
  · exact c.placed_enter held file m
  · rfl

/-- A map that a call admits for a file that is not resident is resident afterwards, was evicted or
is dropped. -/
theorem placed_act (c : Cache) (call : CacheCall) :
    (c.act call).placed + c.departures call = c.placed + c.arrivals call := by
  cases call with
  | get held file =>
      refine (c.placed_get held file).trans (congrArg (c.placed + ·) ?_)
      simp only [arrivals, admits?]
      split <;> rfl
  | countMiss => rfl
  | enter held file m => exact c.placed_enter held file m
  | refresh held file m =>
      refine (c.placed_refresh held file m).trans (congrArg (c.placed + ·) ?_)
      simp only [arrivals, admits?]
      split <;> rfl
  | invalidate file =>
      have hsize := Std.ExtTreeMap.size_erase (t := c.resident) (k := file)
      simp only [act, departures, arrivals, admits?, Option.elim, placed, size, invalidate]
      split
      · next hmem =>
          have hpos : c.resident.size ≠ 0 := by
            intro hzero
            rw [Std.ExtTreeMap.eq_empty_iff_size_eq_zero.mpr hzero] at hmem
            simp at hmem
          rw [hsize, if_pos hmem]
          omega
      · next hmem => rw [hsize, if_neg hmem]
  | clear =>
      have hsize : c.clear.size = 0 := rfl
      have hstats : c.clear.stats = c.stats := rfl
      simp only [act, departures, arrivals, admits?, Option.elim, placed, hsize, hstats]
      omega
  | relieve held =>
      have hsize : (c.relieve held).size = 0 := rfl
      have hstats : (c.relieve held).stats = c.stats := rfl
      simp only [act, departures, arrivals, admits?, Option.elim, placed, hsize, hstats]
      omega

/-- Over a run, what arrives is resident at the end, was evicted or was dropped. -/
theorem placed_afterCalls (c : Cache) (calls : List CacheCall) :
    (c.afterCalls calls).placed + total departures c calls =
      c.placed + total arrivals c calls := by
  induction calls generalizing c with
  | nil => rfl
  | cons call rest ih =>
      have hact := c.placed_act call
      have hrest := ih (c.act call)
      simp only [afterCalls, List.foldl_cons, total] at hrest ⊢
      omega

/-- In a run from the start, all that has arrived is resident, was evicted or was dropped. -/
theorem total_arrivals (capacity : Nat) (calls : List CacheCall) :
    total arrivals (.ofCapacity capacity) calls =
      ((Cache.ofCapacity capacity).afterCalls calls).placed +
        total departures (.ofCapacity capacity) calls := by
  have hplaced := (Cache.ofCapacity capacity).placed_afterCalls calls
  have hstart : (Cache.ofCapacity capacity).placed = 0 := rfl
  omega

/-- The calls of a look-up whose loader makes calls and comes back with a map, or with none. -/
def lookUpCalls (c : Cache) (held : MapId → Bool) (file : FileName) (found : Option SharedMap)
    (loading : List CacheCall) : List CacheCall :=
  .get held file :: if (c.get held file).1.isSome then []
    else .countMiss :: loading ++ (found.map (.enter held file)).toList

end Runs

/-- Each look-up counts once, loaders are called at misses alone, and arrivals and departures of
resident maps balance. -/
theorem counters_account_for_look_ups_and_entries (capacity : Nat) (calls : List CacheCall) :
    let start := Cache.ofCapacity capacity
    let c := start.afterCalls calls
    (∀ held file, (c.get held file).1.isSome = (c.fare? held file).isSome ∧
      c.fare? held file ≠ some .miss ∧
        c.stats.Counts (c.get held file).2.stats (c.fare? held file)) ∧
    (∀ held file load,
      let ended := c.getOrLoad held file load
      let fare := (c.fare? held file).getD .miss
      ∃ looked : Cache, c.stats.Counts looked.stats (some fare) ∧
        c.getOrLoadWith held file (listing load) [] =
          (ended, if fare = .miss then [looked] else []) ∧
        (if fare = .miss then (load looked).2 else looked).stats.Counts ended.2.stats none) ∧
    (∀ held file m, c.stats.Counts (c.enter held file m).stats none ∧
      c.stats.Counts (c.refresh held file m).2.stats none) ∧
    (∀ file, c.stats.Counts (c.invalidate file).stats none) ∧
    c.stats.Counts c.clear.stats none ∧
    (∀ held, c.stats.Counts (c.relieve held).stats none) ∧
    total arrivals start calls = c.size + c.stats.evictions + total departures start calls ∧
    ∀ held file found loading,
      let ended := (c.getOrLoad held file fun c => (found, c.afterCalls loading)).2
      let through := calls ++ c.lookUpCalls held file found loading
      total arrivals start through =
        ended.size + ended.stats.evictions + total departures start through := by
  intro start c
  refine ⟨fun held file => ?_, fun held file load => c.counts_getOrLoad load held file,
    fun held file m => ⟨c.counts_enter held file m, c.counts_refresh held file m⟩,
    fun file => .refl _, .refl _, fun held => .refl _, total_arrivals capacity calls,
    fun held file found loading => ?_⟩
  · obtain ⟨hanswer, hcounts⟩ := c.counts_get held file
    exact ⟨hanswer, c.fare?_ne_miss held file, hcounts⟩
  · have hended : start.afterCalls (calls ++ c.lookUpCalls held file found loading) =
        (c.getOrLoad held file fun c => (found, c.afterCalls loading)).2 := by
      rw [getOrLoad_eq_afterCalls]
      exact List.foldl_append
    exact (total_arrivals capacity _).trans (by rw [hended]; rfl)

end Cache

end MacroAtlas
