import MacroAtlas.Proofs.Cache.Ranking

/-!
# Caches that go as a recency list

A cache follows a recency list if it ranks its resident files as the list does and finds the same
maps alive. Every operation on both keeps this up, provided that no dead map comes back to life.
-/

namespace MacroAtlas

namespace Cache

variable {c : Cache} {l : RecencyList} {capacity : Nat} {held : MapId → Bool} {used : MapId → Prop}
  {file : FileName} {m : SharedMap}

@[simp] theorem living?_sweepQueue (c : Cache) (held : MapId → Bool) (file : FileName) :
    c.sweepQueue.living? held file = c.living? held file := by
  simp only [living?, alive, keeps, resident_sweepQueue, remembered_sweepQueue]

/-- Forgetting the dead maps forgets no living one. -/
theorem living?_forgetDead (c : Cache) (held : MapId → Bool) (file : FileName) :
    (c.forgetDead held).living? held file = c.living? held file := by
  have halive : (c.forgetDead held).alive held = c.alive held := rfl
  rw [living?, living?, halive]
  simp only [forgetDead, Std.ExtTreeMap.getElem?_filter', Option.filter_filter, Bool.and_self]

/-- Eviction leaves what is remembered, and alive afterwards. -/
theorem living?_evict (c : Cache) (held : MapId → Bool) (file : FileName) :
    (c.evict held).living? held file =
      (c.remembered[file]?).filter fun m => (c.evict held).alive held m.id := by
  unfold evict
  generalize hw : (if c.resident.size ≤ c.capacity then c else c.evictFrom c.queue.toList) = within
  have hremembered : within.remembered = c.remembered := by
    rw [← hw]
    split
    · rfl
    · exact remembered_evictFrom c _
  simp only
  split
  · rw [living?_forgetDead, living?, hremembered]
    rfl
  · rw [living?, hremembered]

/-- After an admission, only the file that was admitted has another map remembered. -/
theorem living?_enter (c : Cache) (held : MapId → Bool) (file : FileName) (m : SharedMap)
    (other : FileName) :
    (c.enter held file m).living? held other =
      (if other = file then some m else c.remembered[other]?).filter fun m' =>
        (c.enter held file m).alive held m'.id := by
  have halive : (c.enter held file m).alive held = ((c.admitted file m).evict held).alive held := by
    funext id
    rw [enter_eq]
    simp only [alive, keeps, resident_sweepQueue]
  rw [halive, enter_eq, living?_sweepQueue, living?_evict]
  congr 1
  simp only [admitted, Std.ExtTreeMap.getElem?_insert, Std.LawfulEqCmp.compare_eq_iff_eq,
    eq_comm (a := file)]

/-- The cache goes as the list does. The identities of all maps that are around are in use. -/
structure Follows (used : MapId → Prop) (held : MapId → Bool) (capacity : Nat) (c : Cache)
    (l : RecencyList) : Prop where
  /-- The cache ranks its files as the list does. -/
  ranks : c.Ranks l
  /-- The list is sound. -/
  sound : l.Sound capacity
  /-- The same maps are found to be alive. -/
  living : ∀ file, c.living? held file = l.living? held file
  /-- What callers keep is in use. -/
  held_used : ∀ id, held id = true → used id
  /-- What the cache offers is in use. -/
  offered_used : ∀ file m, c.Offers file m → used m.id
  /-- What was admitted is in use. -/
  admitted_used : ∀ file m, l.admitted file = some m → used m.id

namespace Follows

theorem ofCapacity (used : MapId → Prop) (capacity : Nat) :
    (ofCapacity capacity).Follows used (fun _ => false) capacity (.ofCapacity capacity) where
  ranks := .ofCapacity capacity
  sound := .ofCapacity capacity
  living file := by simp [living?, Cache.ofCapacity, RecencyList.living?, RecencyList.ofCapacity]
  held_used _ h := nomatch h
  offered_used file m h := absurd h (not_offers_ofCapacity capacity file m)
  admitted_used _ _ h := nomatch h

/-- A map that is alive has a number already given out. -/
theorem used_of_alive (h : c.Follows used held capacity l) {id : MapId}
    (ha : l.alive held id = true) : used id := by
  rcases RecencyList.alive_iff.mp ha with hheld | ⟨file, m, hm, rfl⟩
  · exact h.held_used id hheld
  · exact h.admitted_used file m (h.sound.current file m hm)

/-- A cache keeps following its list as more map numbers are given out. -/
theorem mono (h : c.Follows used held capacity l) {used' : MapId → Prop}
    (hused : ∀ id, used id → used' id) : c.Follows used' held capacity l where
  ranks := h.ranks
  sound := h.sound
  living := h.living
  held_used id hid := hused id (h.held_used id hid)
  offered_used file m hm := hused m.id (h.offered_used file m hm)
  admitted_used file m hm := hused m.id (h.admitted_used file m hm)

/-- While nothing comes back to life, what is remembered and alive is what was admitted and is
alive. -/
theorem filter_alive_eq (h : c.Follows used held capacity l) {alive : MapId → Bool}
    (halive : ∀ id, used id → alive id = true → l.alive held id = true) (file : FileName) :
    ((c.remembered[file]?).filter fun m => alive m.id) =
      (l.admitted file).filter fun m => alive m.id := by
  refine Option.ext fun m => ?_
  rw [Option.filter_eq_some_iff, Option.filter_eq_some_iff]
  constructor
  · rintro ⟨hm, ha⟩
    have hliving : c.living? held file = some m := by
      rw [living?, Option.filter_eq_some_iff, h.ranks.alive_eq]
      exact ⟨hm, halive m.id (h.offered_used file m (Or.inr hm)) ha⟩
    rw [h.living] at hliving
    exact ⟨(Option.filter_eq_some_iff.mp hliving).1, ha⟩
  · rintro ⟨hm, ha⟩
    have hliving : l.living? held file = some m := by
      rw [RecencyList.living?, Option.filter_eq_some_iff]
      exact ⟨hm, halive m.id (h.admitted_used file m hm) ha⟩
    rw [← h.living] at hliving
    exact ⟨(Option.filter_eq_some_iff.mp hliving).1, ha⟩

/-- The cache and the list may drop and forget maps in step, and callers may let maps go or keep
others that are alive. -/
theorem shrink (h : c.Follows used held capacity l) {c' : Cache} {l' : RecencyList}
    {held' : MapId → Bool} (hranks : c'.Ranks l') (hsound : l'.Sound capacity)
    (hheld : ∀ id, held' id = true → l.alive held id = true)
    (hentries : ∀ file m, (file, m) ∈ l'.entries → (file, m) ∈ l.entries)
    (hoffers : ∀ file m, c'.Offers file m → c.Offers file m)
    (hkept : ∀ file, c'.living? held' file = none ∧ l'.admitted file = none ∨
      c'.living? held' file = ((c.remembered[file]?).filter fun m => c'.alive held' m.id) ∧
        l'.admitted file = l.admitted file) :
    c'.Follows used held' capacity l' where
  ranks := hranks
  sound := hsound
  living file := by
    rcases hkept file with ⟨hnone, hadmitted⟩ | ⟨hliving, hadmitted⟩
    · rw [hnone, RecencyList.living?, hadmitted]
      rfl
    · rw [hliving, hranks.alive_eq, RecencyList.living?, hadmitted]
      exact h.filter_alive_eq (fun id _ => RecencyList.alive_mono hheld hentries) file
  held_used id hid := h.used_of_alive (hheld id hid)
  offered_used file m hm := h.offered_used file m (hoffers file m hm)
  admitted_used file m hm := by
    rcases hkept file with ⟨-, hadmitted⟩ | ⟨-, hadmitted⟩
    · rw [hadmitted] at hm
      cases hm
    · rw [hadmitted] at hm
      exact h.admitted_used file m hm

/-- Callers may let maps go, and may keep others that are alive. -/
theorem hold (h : c.Follows used held capacity l) {held' : MapId → Bool}
    (hheld : ∀ id, held' id = true → l.alive held id = true) :
    c.Follows used held' capacity l :=
  h.shrink h.ranks h.sound hheld (fun _ _ hm => hm) (fun _ _ ho => ho)
    fun _ => Or.inr ⟨rfl, rfl⟩

theorem withStats (h : c.Follows used held capacity l) (stats : CacheStats) :
    Cache.Follows used held capacity { c with stats } { l with stats } :=
  h.shrink (h.ranks.withStats stats) (h.sound.withStats stats) (fun _ => RecencyList.alive_of_held)
    (fun _ _ hm => hm) (fun _ _ ho => ho) fun _ => Or.inr ⟨rfl, rfl⟩

theorem countMiss (h : c.Follows used held capacity l) :
    c.countMiss.Follows used held capacity l.countMiss := by
  rw [Cache.countMiss, RecencyList.countMiss, ← h.ranks.stats_eq]
  exact h.withStats _

/-- Both drop a file alike. -/
theorem invalidate (h : c.Follows used held capacity l) (file : FileName) :
    (c.invalidate file).Follows used held capacity (l.invalidate file) := by
  refine h.shrink (h.ranks.invalidate file) h.sound.invalidate (fun _ => RecencyList.alive_of_held)
    (fun other m hm => (RecencyList.mem_without_iff.mp hm).2)
    (fun other m ho => (offers_of_invalidate ho).2) fun other => ?_
  by_cases hf : other = file
  · left
    subst other
    simp [Cache.invalidate, living?, RecencyList.invalidate]
  · right
    have hremembered : (c.invalidate file).remembered[other]? = c.remembered[other]? := by
      simp only [Cache.invalidate, Std.ExtTreeMap.getElem?_erase, Std.LawfulEqCmp.compare_eq_iff_eq,
        if_neg (Ne.symm hf)]
    exact ⟨by rw [living?, hremembered], if_neg hf⟩

/-- Both drop everything alike. -/
theorem clear (h : c.Follows used held capacity l) :
    c.clear.Follows used held capacity l.clear :=
  h.shrink h.ranks.clear h.sound.clear (fun _ => RecencyList.alive_of_held)
    (fun _ _ hm => absurd hm List.not_mem_nil)
    (fun file m ho => absurd ho (not_offers_clear c file m))
    fun file => Or.inl ⟨by simp [Cache.clear, living?], rfl⟩

/-- Both give up what no holder has. -/
theorem relieve (h : c.Follows used held capacity l) :
    (c.relieve held).Follows used held capacity l.relieve := by
  refine h.shrink (h.ranks.relieve held) h.sound.relieve (fun _ => RecencyList.alive_of_held)
    (fun _ _ hm => absurd hm List.not_mem_nil) (fun _ _ => offers_of_relieve)
    fun file => Or.inr ⟨?_, rfl⟩
  rw [Cache.relieve, living?_forgetDead]
  rfl

/-- A look-up of a resident file. -/
theorem touch? (h : c.Follows used held capacity l) {after : Cache}
    (ht : c.touch? file = some (m, after)) :
    l.find? file = some m ∧ after.Follows used held capacity (l.use file m) := by
  obtain ⟨hranks, hfind, hremembered⟩ := h.ranks.touch? ht
  have hm : (file, m) ∈ l.entries := RecencyList.mem_entries_of_find? hfind
  refine ⟨hfind, h.shrink hranks (h.sound.use hm) (fun _ => RecencyList.alive_of_held)
    (fun other m' hm' => ?_) (offers_of_touch? ht).2 fun other => Or.inr ⟨?_, rfl⟩⟩
  · rcases RecencyList.mem_use_iff.mp hm' with ⟨-, hold⟩ | ⟨rfl, rfl⟩
    · exact hold
    · exact hm
  · rw [living?, hremembered]

/-- A map is admitted. It is alive, or its identity is new. -/
theorem enter (h : c.Follows used held capacity l) (file : FileName)
    (hm : l.alive held m.id = true ∨ ¬ used m.id) :
    (c.enter held file m).Follows (fun id => used id ∨ id = m.id) held capacity
      (l.enter file m) := by
  have hranks := h.ranks.enter h.sound.bounded held file m
  refine ⟨hranks, h.sound.enter file m, fun other => ?_, fun id hid => Or.inl (h.held_used id hid),
    fun other m' ho => ?_, fun other m' ha => ?_⟩
  · rw [living?_enter, hranks.alive_eq, RecencyList.living?, RecencyList.admitted_enter]
    by_cases hf : other = file
    · simp only [if_pos hf]
    · simp only [if_neg hf]
      -- What comes to life is the map that enters; it was alive before or nobody remembers it.
      refine h.filter_alive_eq (fun id hused ha => ?_) other
      rcases RecencyList.alive_iff.mp ha with hheld | ⟨f, m', hm', rfl⟩
      · exact RecencyList.alive_of_held hheld
      · rcases h.sound.mem_of_mem_enter hm' with hold | ⟨-, rfl⟩
        · exact RecencyList.alive_of_mem hold
        · exact hm.resolve_right (not_not_intro hused)
  · rcases offers_of_enter ho with ⟨-, rfl⟩ | ⟨-, hold⟩
    · exact Or.inr rfl
    · exact Or.inl (h.offered_used other m' hold)
  · rw [RecencyList.admitted_enter] at ha
    by_cases hf : other = file
    · rw [if_pos hf, Option.some.injEq] at ha
      exact Or.inr (congrArg SharedMap.id ha.symm)
    · rw [if_neg hf] at ha
      exact Or.inl (h.admitted_used other m' ha)

/-- Admitting a living map takes no new identity. -/
theorem enter_alive (h : c.Follows used held capacity l) (file : FileName)
    (hm : l.alive held m.id = true) :
    (c.enter held file m).Follows used held capacity (l.enter file m) :=
  (h.enter file (Or.inl hm)).mono fun _ hid => hid.elim id fun heq => heq ▸ h.used_of_alive hm

/-- A look-up has the same result. -/
theorem get (h : c.Follows used held capacity l) (file : FileName) :
    (c.get held file).1 = (l.get held file).1 ∧
      (c.get held file).2.Follows used held capacity (l.get held file).2 := by
  unfold Cache.get RecencyList.get
  cases ht : c.touch? file with
  | some found =>
      obtain ⟨m, after⟩ := found
      obtain ⟨hfind, hafter⟩ := h.touch? ht
      have hstats : after.stats = l.stats := hafter.ranks.stats_eq
      rw [hfind]
      refine ⟨rfl, ?_⟩
      simp only
      rw [hstats]
      exact hafter.withStats _
  | none =>
      have hnone : l.find? file = none := by
        rw [h.ranks.find?_eq]
        unfold Cache.touch? at ht
        split at ht
        · next hr => rw [hr]; rfl
        · cases ht
      rw [hnone, h.living file]
      simp only
      cases hl : l.living? held file with
      | none => exact ⟨rfl, h⟩
      | some m =>
          have halive : l.alive held m.id = true := (Option.filter_eq_some_iff.mp hl).2
          refine ⟨rfl, ?_⟩
          simp only
          rw [h.ranks.stats_eq]
          exact (h.withStats _).enter_alive file halive

/-- A map is admitted for a file in both or in neither. -/
theorem refresh (h : c.Follows used held capacity l) (file : FileName)
    (hm : l.alive held m.id = true ∨ ¬ used m.id) :
    (c.refresh held file m).1 = (l.refresh held file m).1 ∧
      (c.refresh held file m).2.Follows (fun id => used id ∨ id = m.id) held capacity
        (l.refresh held file m).2 := by
  have hresident : c.resident.contains file = (l.find? file).isSome := by
    rw [h.ranks.find?_eq, Option.isSome_map, Std.ExtTreeMap.contains_eq_isSome_getElem?]
  unfold Cache.refresh RecencyList.refresh
  rw [hresident, h.living file]
  split
  · exact ⟨rfl, h.enter file hm⟩
  · exact ⟨rfl, h.mono fun _ => Or.inl⟩

/-- A look-up with loaders that go alike has the same result. -/
theorem getOrLoad (h : c.Follows used held capacity l) (file : FileName) {used' : MapId → Prop}
    {load : Cache → Option SharedMap × Cache}
    {load' : RecencyList → Option SharedMap × RecencyList}
    (hused : ∀ id, used id → used' id)
    (hload : ∀ c l, Follows used held capacity c l → (load c).1 = (load' l).1 ∧
      (load c).2.Follows used' held capacity (load' l).2)
    (hnew : ∀ l m, (load' l).1 = some m →
      (load' l).2.alive held m.id = true ∨ ¬ used' m.id) :
    (c.getOrLoad held file load).1 = (l.getOrLoad held file load').1 ∧
      (c.getOrLoad held file load).2.Follows
        (fun id => used' id ∨ ∃ l m, (load' l).1 = some m ∧ id = m.id) held capacity
        (l.getOrLoad held file load').2 := by
  obtain ⟨hfound, hafter⟩ := h.get file
  unfold Cache.getOrLoad RecencyList.getOrLoad
  generalize c.get held file = lookedUp at hfound hafter ⊢
  generalize l.get held file = lookedUp' at hfound hafter ⊢
  obtain ⟨found, after⟩ := lookedUp
  obtain ⟨found', after'⟩ := lookedUp'
  obtain rfl : found = found' := hfound
  cases found with
  | some m => exact ⟨rfl, hafter.mono fun id hid => Or.inl (hused id hid)⟩
  | none =>
      obtain ⟨hloaded, hfollows⟩ := hload _ _ hafter.countMiss
      have hnew := hnew after'.countMiss
      have hwitness : ∀ m, (load' after'.countMiss).1 = some m →
          ∃ l m', (load' l).1 = some m' ∧ m.id = m'.id := fun m hm => ⟨_, m, hm, rfl⟩
      simp only
      generalize load after.countMiss = ended at hloaded hfollows ⊢
      generalize load' after'.countMiss = ended' at hloaded hfollows hnew hwitness ⊢
      obtain ⟨loaded, c'⟩ := ended
      obtain ⟨loaded', l'⟩ := ended'
      obtain rfl : loaded = loaded' := hloaded
      cases loaded with
      | none => exact ⟨rfl, hfollows.mono fun _ => Or.inl⟩
      | some m =>
          refine ⟨rfl, (hfollows.enter file (hnew m rfl)).mono fun id hid => ?_⟩
          rcases hid with hid | rfl
          · exact Or.inl hid
          · exact Or.inr (hwitness m rfl)

end Follows

end Cache

end MacroAtlas
