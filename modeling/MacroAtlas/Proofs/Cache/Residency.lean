import Mathlib.Data.Finset.Card
import MacroAtlas.Proofs.Cache.Ranking

/-!
# How long a file stays resident

A file moves towards the head of the recency list only when other files are used, and behind it each
of them stands once. So its map stays resident while fewer other files are used than the list can
hold.
-/

namespace MacroAtlas

namespace RecencyList

variable {l : RecencyList} {file other : FileName} {m m' : SharedMap} {since : Finset FileName}

/-- The file is resident with this map, and only files among the given ones were used after it. -/
def Recent (l : RecencyList) (file : FileName) (m : SharedMap) (since : Finset FileName) : Prop :=
  ∃ older newer, l.entries = older ++ (file, m) :: newer ∧ ∀ entry ∈ newer, entry.1 ∈ since

/-- Using a map keeps one entry a file. -/
theorem nodup_use (hn : (l.entries.map (·.1)).Nodup) (file : FileName) (m : SharedMap) :
    ((l.use file m).entries.map (·.1)).Nodup := by
  have hrest : ((l.without file).map (·.1)).Nodup := hn.sublist (List.filter_sublist.map _)
  simp only [use, List.map_append, List.map_singleton]
  refine hrest.append (List.nodup_singleton file) fun f hf hmem => ?_
  obtain rfl := List.mem_singleton.mp hmem
  obtain ⟨⟨f, m'⟩, hentry, rfl⟩ := List.mem_map.mp hf
  exact (mem_without_iff.mp hentry).1 rfl

namespace Recent

/-- The file that is used is the most recent one. -/
theorem of_use (l : RecencyList) (file : FileName) (m : SharedMap) (since : Finset FileName) :
    (l.use file m).Recent file m since :=
  ⟨l.without file, [], rfl, fun _ he => absurd he List.not_mem_nil⟩

/-- A recent map is an entry of the list. -/
theorem mem_entries (h : l.Recent file m since) : (file, m) ∈ l.entries := by
  obtain ⟨older, newer, hentries, -⟩ := h
  rw [hentries]
  exact List.mem_append_right _ List.mem_cons_self

/-- Another file that is dropped stands on neither side any more. -/
theorem without (h : l.Recent file m since) (hne : other ≠ file) :
    Recent { l with entries := l.without other } file m since := by
  obtain ⟨older, newer, hentries, hnewer⟩ := h
  refine ⟨older.filter fun entry => entry.1 ≠ other, newer.filter fun entry => entry.1 ≠ other, ?_,
    fun entry he => hnewer entry (List.mem_filter.mp he).1⟩
  simp only [RecencyList.without, hentries]
  rw [List.filter_append, List.filter_cons_of_pos (by simpa using hne.symm)]

/-- Another file that is used stands behind. -/
theorem use (h : l.Recent file m since) (hne : other ≠ file) (ho : other ∈ since) :
    (l.use other m').Recent file m since := by
  obtain ⟨older, newer, hentries, hnewer⟩ := h.without hne
  refine ⟨older, newer ++ [(other, m')], ?_, fun entry he => ?_⟩
  · simp only at hentries
    simp only [RecencyList.use, hentries, List.append_assoc, List.cons_append]
  · rcases List.mem_append.mp he with hold | hnew
    · exact hnewer entry hold
    · rw [List.mem_singleton.mp hnew]
      exact ho

/-- What is too much is dropped from the side of the older files, because too few can be newer. -/
theorem trim (h : l.Recent file m since) (hn : (l.entries.map (·.1)).Nodup)
    (hcard : since.card < l.capacity) : l.trim.Recent file m since := by
  obtain ⟨older, newer, hentries, hnewer⟩ := h
  have hbehind : newer.length ≤ since.card := by
    have hnodup : (newer.map (·.1)).Nodup := by
      refine hn.sublist (List.Sublist.map _ ?_)
      rw [hentries]
      exact (List.sublist_cons_self _ newer).trans (List.sublist_append_right older _)
    rw [← List.length_map (f := (·.1)), ← List.toFinset_card_of_nodup hnodup]
    apply Finset.card_le_card
    intro f hf
    obtain ⟨entry, he, rfl⟩ := List.mem_map.mp (List.mem_toFinset.mp hf)
    exact hnewer entry he
  have hexcess : l.entries.length - l.capacity ≤ older.length := by
    rw [hentries, List.length_append, List.length_cons]
    omega
  refine ⟨older.drop (l.entries.length - l.capacity), newer, ?_, hnewer⟩
  simp only [RecencyList.trim]
  rw [← List.drop_append_of_le_length hexcess, ← hentries]

end Recent

end RecencyList

namespace Cache

/-- The use of a file keeps a property of caches, whatever map it has or is given. -/
structure KeptByUse (P : Cache → Prop) (held : MapId → Bool) (file : FileName) : Prop where
  /-- Using a resident map keeps the property. -/
  touch? : ∀ c m used, P c → c.touch? file = some (m, used) → P used
  /-- It does not depend on how look-ups have fared. -/
  withStats : ∀ c stats, P c → P { c with stats }
  /-- Admitting a map for the file keeps the property. -/
  enter : ∀ c m, P c → P (c.enter held file m)

variable {c : Cache} {P : Cache → Prop} {capacity : Nat} {held : MapId → Bool}
  {file other : FileName} {m : SharedMap} {since : Finset FileName}

namespace KeptByUse

theorem countMiss (h : KeptByUse P held file) (hc : P c) : P c.countMiss := h.withStats c _ hc

/-- A look-up uses a resident map, admits a living one or leaves the cache alone. -/
theorem get (h : KeptByUse P held file) (hc : P c) : P (c.get held file).2 := by
  unfold Cache.get
  split
  · next m used ht => exact h.withStats used _ (h.touch? c m used hc ht)
  · split
    · exact hc
    · exact h.enter _ _ (h.withStats c _ hc)

end KeptByUse

/-- The files are ranked by a recency list that is sound for a capacity. -/
def Ranked (capacity : Nat) (c : Cache) : Prop := ∃ l, c.Ranks l ∧ l.Sound capacity

namespace Ranked

/-- A new cache ranks the empty list. -/
theorem ofCapacity (capacity : Nat) : (ofCapacity capacity).Ranked capacity :=
  ⟨.ofCapacity capacity, .ofCapacity capacity, .ofCapacity capacity⟩

/-- Every operation that uses a map keeps the queue ranking some list. -/
theorem keptByUse (capacity : Nat) (held : MapId → Bool) (file : FileName) :
    KeptByUse (Ranked capacity) held file where
  touch? := by
    rintro c m used ⟨l, hranks, hsound⟩ ht
    obtain ⟨hused, hfind, -⟩ := hranks.touch? ht
    exact ⟨l.use file m, hused, hsound.use (RecencyList.mem_entries_of_find? hfind)⟩
  withStats := by
    rintro c stats ⟨l, hranks, hsound⟩
    exact ⟨_, hranks.withStats stats, hsound.withStats stats⟩
  enter := by
    rintro c m ⟨l, hranks, hsound⟩
    exact ⟨l.enter file m, hranks.enter hsound.bounded held file m, hsound.enter file m⟩

/-- So does dropping one file. -/
theorem invalidate (h : c.Ranked capacity) (file : FileName) :
    (c.invalidate file).Ranked capacity := by
  obtain ⟨l, hranks, hsound⟩ := h
  exact ⟨l.invalidate file, hranks.invalidate file, hsound.invalidate⟩

theorem clear (h : c.Ranked capacity) : c.clear.Ranked capacity := by
  obtain ⟨l, hranks, hsound⟩ := h
  exact ⟨l.clear, hranks.clear, hsound.clear⟩

theorem relieve (h : c.Ranked capacity) (held : MapId → Bool) :
    (c.relieve held).Ranked capacity := by
  obtain ⟨l, hranks, hsound⟩ := h
  exact ⟨l.relieve, hranks.relieve held, hsound.relieve⟩

end Ranked

/-- The file is resident with this map, and only files among the given ones were used after it. -/
def Recent (capacity : Nat) (file : FileName) (m : SharedMap) (since : Finset FileName)
    (c : Cache) : Prop :=
  ∃ l, c.Ranks l ∧ l.Sound capacity ∧ l.Recent file m since

namespace Recent

/-- A map that was just admitted stays, because the capacity is not zero. -/
theorem of_enter (h : c.Ranked capacity) (held : MapId → Bool) (file : FileName) (m : SharedMap)
    (hcard : since.card < max capacity 1) :
    (c.enter held file m).Recent capacity file m since := by
  obtain ⟨l, hranks, hsound⟩ := h
  refine ⟨l.enter file m, hranks.enter hsound.bounded held file m, hsound.enter file m, ?_⟩
  rw [RecencyList.enter_eq_trim hsound.bounded]
  apply RecencyList.Recent.trim
  · exact RecencyList.Recent.of_use l file m since
  · exact RecencyList.nodup_use hranks.nodup_files file m
  · rw [← hsound.capacity_eq] at hcard
    exact hcard

/-- A look-up of the file finds its map resident. -/
theorem get_self (h : c.Recent capacity file m since) (held : MapId → Bool) :
    ∃ after, c.get held file = (some m, after) ∧ after.Recent capacity file m since := by
  obtain ⟨l, hranks, hsound, hrecent⟩ := h
  obtain ⟨stamp, hr⟩ := hranks.mem_entries_iff.mp hrecent.mem_entries
  have ht : ∃ used, c.touch? file = some (m, used) := by simp [Cache.touch?, hr]
  obtain ⟨used, ht⟩ := ht
  obtain ⟨hused, -, -⟩ := hranks.touch? ht
  have hsound' := hsound.use hrecent.mem_entries
  let stats := { used.stats with hits := used.stats.hits + 1 }
  refine ⟨{ used with stats }, ?_, _, hused.withStats stats, hsound'.withStats stats, ?_⟩
  · simp only [Cache.get, ht, stats]
  · exact RecencyList.Recent.of_use l file m since

/-- Dropping another file leaves a recent map recent. -/
theorem invalidate (h : c.Recent capacity file m since) (hne : other ≠ file) :
    (c.invalidate other).Recent capacity file m since := by
  obtain ⟨l, hranks, hsound, hrecent⟩ := h
  exact ⟨l.invalidate other, hranks.invalidate other, hsound.invalidate, hrecent.without hne⟩

/-- The use of other files keeps the file resident while they are fewer than the capacity. -/
theorem keptByUse (hcard : since.card < max capacity 1) (held : MapId → Bool)
    (hne : other ≠ file) (ho : other ∈ since) :
    KeptByUse (Recent capacity file m since) held other where
  touch? := by
    rintro c m' used ⟨l, hranks, hsound, hrecent⟩ ht
    obtain ⟨hused, hfind, -⟩ := hranks.touch? ht
    have hmem := RecencyList.mem_entries_of_find? hfind
    exact ⟨l.use other m', hused, hsound.use hmem, hrecent.use hne ho⟩
  withStats := by
    rintro c stats ⟨l, hranks, hsound, hrecent⟩
    exact ⟨_, hranks.withStats stats, hsound.withStats stats, hrecent⟩
  enter := by
    rintro c m' ⟨l, hranks, hsound, hrecent⟩
    refine ⟨l.enter other m', hranks.enter hsound.bounded held other m', hsound.enter other m', ?_⟩
    rw [RecencyList.enter_eq_trim hsound.bounded]
    have hused : (l.lengthen other m').Recent file m since := hrecent.use hne ho
    apply hused.trim
    · exact RecencyList.nodup_use hranks.nodup_files other m'
    · rw [← hsound.capacity_eq] at hcard
      exact hcard

end Recent

end Cache

end MacroAtlas
