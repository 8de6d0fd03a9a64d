import MacroAtlas.Cache.Session
import Mathlib.Data.List.Basic

/-!
# The plain form of the cache

A recency list names the resident maps in the order of their last use and remembers what was last
admitted for each file. It has no stamps and no queue: a use moves a file to the end, and a list
that is too long loses its head.
-/

namespace MacroAtlas

/-- The resident maps in the order of their last use. -/
structure RecencyList where
  /-- The greatest number of resident maps. -/
  capacity : Nat
  /-- The files with their maps, least recently used first. -/
  entries : List (FileName × SharedMap)
  /-- What was last admitted for each file since it was dropped from the outside. -/
  admitted : FileName → Option SharedMap
  /-- How look-ups and admissions have fared. -/
  stats : CacheStats

namespace RecencyList

section Operations

variable (l : RecencyList) (held : MapId → Bool) (file : FileName) (m : SharedMap)

/-- An empty list. A capacity of zero counts as one. -/
def ofCapacity (capacity : Nat) : RecencyList := ⟨max capacity 1, [], fun _ => none, {}⟩

/-- The resident map of a file. -/
def find? : Option SharedMap := (l.entries.find? fun entry => entry.1 = file).map (·.2)

/-- The list without a file. -/
def without : List (FileName × SharedMap) := l.entries.filter fun entry => entry.1 ≠ file

/-- Moves a file to the most recent end, with this map. -/
def use : RecencyList := { l with entries := l.without file ++ [(file, m)] }

/-- Puts a map for a file at the most recent end, however many files there are. -/
def lengthen : RecencyList :=
  { l.use file m with admitted := fun f => if f = file then some m else l.admitted f }

/-- Puts a map for a file at the most recent end; if there are too many files, the least recently
used one is dropped. -/
def enter : RecencyList :=
  let longer := l.lengthen file m
  if longer.entries.length ≤ l.capacity then longer
  else { longer with
    entries := longer.entries.tail
    stats := { l.stats with evictions := l.stats.evictions + 1 } }

/-- A caller or the list keeps the map. -/
def alive (id : MapId) : Bool := held id || l.entries.any fun entry => entry.2.id == id

/-- What was last admitted for a file, if it is still alive. -/
def living? : Option SharedMap := (l.admitted file).filter fun m => l.alive held m.id

/-- Looks a file up: a resident map is used, a living one is admitted again. -/
def get : Option SharedMap × RecencyList :=
  match l.find? file with
  | some m => (some m, { l.use file m with stats := { l.stats with hits := l.stats.hits + 1 } })
  | none =>
    match l.living? held file with
    | none => (none, l)
    | some m =>
      (some m, { l with stats := { l.stats with revived := l.stats.revived + 1 } }.enter file m)

/-- Counts a look-up that has to load. -/
def countMiss : RecencyList := { l with stats := { l.stats with misses := l.stats.misses + 1 } }

/-- Looks a file up, with a loader that may use the list itself. -/
def getOrLoad (load : RecencyList → Option SharedMap × RecencyList) :
    Option SharedMap × RecencyList :=
  match l.get held file with
  | (some m, after) => (some m, after)
  | (none, after) =>
    match load after.countMiss with
    | (none, loaded) => (none, loaded)
    | (some m, loaded) => (some m, loaded.enter file m)

/-- Admits a map for a file that has one. -/
def refresh : Bool × RecencyList :=
  if (l.find? file).isSome || (l.living? held file).isSome then (true, l.enter file m)
  else (false, l)

/-- Drops and forgets a file. -/
def invalidate : RecencyList :=
  { l with entries := l.without file, admitted := fun f => if f = file then none else l.admitted f }

/-- Drops and forgets all files. -/
def clear : RecencyList := { l with entries := [], admitted := fun _ => none }

/-- Drops all files. -/
def relieve : RecencyList := { l with entries := [] }

end Operations

/-- The list without as many of its least recently used files as are too many. -/
def trim (l : RecencyList) : RecencyList :=
  { l with
    entries := l.entries.drop (l.entries.length - l.capacity)
    stats := { l.stats with
      evictions := l.stats.evictions + (l.entries.length - l.capacity) } }

/-- A list within its capacity is left as it is. -/
theorem trim_of_length_le {l : RecencyList} (h : l.entries.length ≤ l.capacity) :
    l.trim = l := by
  rw [trim, Nat.sub_eq_zero_of_le h]
  rfl

/-- Trimming drops the head first. -/
theorem trim_tail {l : RecencyList} (h : l.capacity < l.entries.length) :
    trim { l with
      entries := l.entries.tail
      stats := { l.stats with evictions := l.stats.evictions + 1 } } = l.trim := by
  obtain ⟨capacity, entries, admitted, stats⟩ := l
  cases entries with
  | nil => cases h
  | cons entry rest =>
      have hexcess : rest.length + 1 - capacity = rest.length - capacity + 1 := by
        simp only [List.length_cons] at h
        omega
      simp only [trim, List.tail_cons, List.length_cons, hexcess, List.drop_succ_cons]
      congr 2
      omega

/-- An admission drops no more than one file. -/
theorem enter_eq_trim {l : RecencyList} (hb : l.entries.length ≤ l.capacity)
    (file : FileName) (m : SharedMap) : l.enter file m = (l.lengthen file m).trim := by
  have hlength : (l.lengthen file m).entries.length ≤ l.capacity + 1 := by
    have hle := List.length_filter_le (fun entry => decide (entry.1 ≠ file)) l.entries
    simp only [lengthen, use, without, List.length_append, List.length_singleton]
    omega
  rcases Nat.lt_or_ge l.capacity (l.lengthen file m).entries.length with hover | hfits
  · have hexcess : (l.lengthen file m).entries.length - l.capacity = 1 := by omega
    have hcapacity : (l.lengthen file m).capacity = l.capacity := rfl
    rw [trim, hcapacity, hexcess, List.drop_one]
    exact if_neg (Nat.not_le.mpr hover)
  · rw [trim_of_length_le hfits]
    exact if_pos hfits

variable {l : RecencyList} {capacity : Nat} {held : MapId → Bool} {file other : FileName}
  {m m' : SharedMap}

/-- Taking a file out leaves exactly the entries of the other files. -/
theorem mem_without_iff :
    (other, m') ∈ l.without file ↔ other ≠ file ∧ (other, m') ∈ l.entries := by
  rw [without, List.mem_filter, decide_eq_true_eq, and_comm]

/-- Using a map puts it in the place of whatever its file had, and touches no other file. -/
theorem mem_use_iff :
    (other, m') ∈ (l.use file m).entries ↔
      other ≠ file ∧ (other, m') ∈ l.entries ∨ other = file ∧ m' = m := by
  rw [use, List.mem_append, mem_without_iff, List.mem_singleton, Prod.mk.injEq]

theorem mem_entries_of_find? (h : l.find? file = some m) : (file, m) ∈ l.entries := by
  obtain ⟨⟨f, m'⟩, hf, rfl⟩ := Option.map_eq_some_iff.mp h
  obtain rfl : f = file := by simpa using List.find?_some hf
  exact List.mem_of_find?_eq_some hf

theorem not_mem_entries_of_find?_eq_none (h : l.find? file = none) (m : SharedMap) :
    (file, m) ∉ l.entries := by
  rw [find?, Option.map_eq_none_iff, List.find?_eq_none] at h
  intro hm
  exact h _ hm (decide_eq_true rfl)

/-- A map is alive where a holder has it or an entry of the list is that very map. -/
theorem alive_iff {id : MapId} :
    l.alive held id = true ↔ held id = true ∨ ∃ file m, (file, m) ∈ l.entries ∧ m.id = id := by
  simp only [alive, Bool.or_eq_true, List.any_eq_true, beq_iff_eq, Prod.exists]

theorem alive_of_held {id : MapId} (hid : held id = true) : l.alive held id = true :=
  alive_iff.mpr (Or.inl hid)

theorem alive_of_mem (hm : (file, m) ∈ l.entries) : l.alive held m.id = true :=
  alive_iff.mpr (Or.inr ⟨file, m, hm, rfl⟩)

/-- With fewer holders' maps and fewer entries, no map comes alive. -/
theorem alive_mono {l l' : RecencyList} {held held' : MapId → Bool} {id : MapId}
    (hheld : ∀ id, held' id = true → l.alive held id = true)
    (hentries : ∀ file m, (file, m) ∈ l'.entries → (file, m) ∈ l.entries)
    (ha : l'.alive held' id = true) : l.alive held id = true := by
  rcases alive_iff.mp ha with hid | ⟨file, m, hm, rfl⟩
  · exact hheld id hid
  · exact alive_of_mem (hentries file m hm)

/-- The list is within its capacity, and its maps are the ones last admitted. -/
structure Sound (l : RecencyList) (capacity : Nat) : Prop where
  /-- A capacity of zero counts as one. -/
  capacity_eq : l.capacity = max capacity 1
  /-- There are no more files than the capacity allows. -/
  bounded : l.entries.length ≤ l.capacity
  /-- A file in the list has the map last admitted for it. -/
  current : ∀ file m, (file, m) ∈ l.entries → l.admitted file = some m

/-- Admitting a map makes it the last one admitted for its file, and for no other file. -/
theorem admitted_enter (l : RecencyList) (file : FileName) (m : SharedMap) (other : FileName) :
    (l.enter file m).admitted other = if other = file then some m else l.admitted other := by
  unfold enter
  simp only
  split <;> rfl

namespace Sound

/-- A list has room for at least one entry. -/
theorem positive (h : l.Sound capacity) : 0 < l.capacity := by
  have := h.capacity_eq
  omega

/-- The empty list is sound, also for the capacity zero that is raised to one. -/
theorem ofCapacity (capacity : Nat) : (RecencyList.ofCapacity capacity).Sound capacity :=
  ⟨rfl, Nat.zero_le _, fun _ _ hm => absurd hm List.not_mem_nil⟩

/-- Fewer files, with what was admitted for them. -/
theorem sublist (h : l.Sound capacity) {entries : List (FileName × SharedMap)}
    (hs : entries.Sublist l.entries) {admitted : FileName → Option SharedMap}
    (ha : ∀ file m, (file, m) ∈ entries → admitted file = l.admitted file) :
    RecencyList.Sound { l with entries, admitted } capacity :=
  ⟨h.capacity_eq, Nat.le_trans hs.length_le h.bounded,
    fun file m hm => (ha file m hm).trans (h.current file m (hs.subset hm))⟩

theorem withStats (h : l.Sound capacity) (stats : CacheStats) :
    RecencyList.Sound { l with stats } capacity :=
  ⟨h.capacity_eq, h.bounded, h.current⟩

/-- Dropping one file keeps a list sound. -/
theorem invalidate (h : l.Sound capacity) : (l.invalidate file).Sound capacity :=
  h.sublist List.filter_sublist fun _ _ hm => if_neg (mem_without_iff.mp hm).1

/-- Dropping everything keeps a list sound. -/
theorem clear (h : l.Sound capacity) : l.clear.Sound capacity :=
  h.sublist (List.nil_sublist _) fun _ _ hm => absurd hm List.not_mem_nil

theorem relieve (h : l.Sound capacity) : l.relieve.Sound capacity :=
  h.sublist (List.nil_sublist _) fun _ _ _ => rfl

/-- Using a file of the list. -/
theorem use (h : l.Sound capacity) (hm : (file, m) ∈ l.entries) :
    (l.use file m).Sound capacity := by
  refine ⟨h.capacity_eq, ?_, fun other m' hm' => ?_⟩
  · have hlt : (l.without file).length < l.entries.length :=
      List.length_filter_lt_length_iff_exists.mpr ⟨(file, m), hm, by simp⟩
    have hb := h.bounded
    simp only [RecencyList.use, List.length_append, List.length_singleton]
    omega
  · rcases mem_use_iff.mp hm' with ⟨-, hold⟩ | ⟨rfl, rfl⟩
    · exact h.current other m' hold
    · exact h.current other m' hm

/-- So does admitting a map, which trims the list. -/
theorem enter (h : l.Sound capacity) (file : FileName) (m : SharedMap) :
    (l.enter file m).Sound capacity := by
  have hcurrent : ∀ other m', (other, m') ∈ (l.lengthen file m).entries →
      (l.lengthen file m).admitted other = some m' := by
    intro other m' hm'
    rcases mem_use_iff.mp hm' with ⟨hne, hold⟩ | ⟨rfl, rfl⟩
    · exact (if_neg hne).trans (h.current other m' hold)
    · exact if_pos rfl
  rw [enter_eq_trim h.bounded]
  refine ⟨h.capacity_eq, ?_, fun other m' hm' => hcurrent other m' (List.mem_of_mem_drop hm')⟩
  simp only [trim, List.length_drop]
  omega

/-- An admission makes no file but this one resident. -/
theorem mem_of_mem_enter (h : l.Sound capacity) (hm : (other, m') ∈ (l.enter file m).entries) :
    (other, m') ∈ l.entries ∨ other = file ∧ m' = m := by
  rw [enter_eq_trim h.bounded] at hm
  exact (mem_use_iff.mp (List.mem_of_mem_drop hm)).imp_left And.right

/-- The file that is admitted stays, because the capacity is not zero. -/
theorem mem_enter_self (h : l.Sound capacity) (file : FileName) (m : SharedMap) :
    (file, m) ∈ (l.enter file m).entries := by
  have hlength : (l.without file).length ≤ l.capacity :=
    Nat.le_trans (List.length_filter_le _ _) h.bounded
  have hpositive := h.positive
  have hexcess : (l.without file ++ [(file, m)]).length - l.capacity ≤ (l.without file).length := by
    rw [List.length_append, List.length_singleton]
    omega
  rw [enter_eq_trim h.bounded]
  simp only [trim, lengthen, RecencyList.use]
  rw [List.drop_append_of_le_length hexcess]
  exact List.mem_append_right _ (List.mem_singleton_self _)

/-- A look-up leaves the map that it finds with its file. -/
theorem mem_get (h : l.Sound capacity) (held : MapId → Bool) (file : FileName) (m : SharedMap)
    (hm : (l.get held file).1 = some m) : (file, m) ∈ (l.get held file).2.entries := by
  unfold RecencyList.get at hm ⊢
  split
  · next found hf =>
      rw [hf] at hm
      exact mem_use_iff.mpr (Or.inr ⟨rfl, (Option.some.inj hm).symm⟩)
  · next hf =>
      rw [hf] at hm
      simp only at hm
      split
      · next hl =>
          rw [hl] at hm
          cases hm
      · next living hl =>
          rw [hl] at hm
          obtain rfl := Option.some.inj hm
          exact (h.withStats _).mem_enter_self file living

/-- So does a look-up, whether it hits, revives or misses. -/
theorem get (h : l.Sound capacity) (held : MapId → Bool) (file : FileName) :
    (l.get held file).2.Sound capacity := by
  unfold RecencyList.get
  split
  · next hf => exact (h.use (mem_entries_of_find? hf)).withStats _
  · split
    · exact h
    · exact (h.withStats _).enter file _

/-- A look-up with a loader does so too. -/
theorem mem_getOrLoad (h : l.Sound capacity)
    {load : RecencyList → Option SharedMap × RecencyList}
    (hload : ∀ l, Sound l capacity → (load l).2.Sound capacity)
    (hm : (l.getOrLoad held file load).1 = some m) :
    (file, m) ∈ (l.getOrLoad held file load).2.entries := by
  have hafter := h.get held file
  have hmem := h.mem_get held file m
  unfold RecencyList.getOrLoad at hm ⊢
  generalize l.get held file = lookedUp at hafter hmem hm ⊢
  obtain ⟨found, after⟩ := lookedUp
  cases found with
  | some found => exact hmem hm
  | none =>
      simp only at hm ⊢
      have hloaded := hload after.countMiss (hafter.withStats _)
      generalize load after.countMiss = ended at hloaded hm ⊢
      obtain ⟨loaded, l'⟩ := ended
      cases loaded with
      | none => cases hm
      | some loaded =>
          obtain rfl := Option.some.inj hm
          exact hloaded.mem_enter_self file loaded

end Sound

end RecencyList

end MacroAtlas
