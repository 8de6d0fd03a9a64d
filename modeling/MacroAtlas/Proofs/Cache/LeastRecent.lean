import MacroAtlas.Proofs.Cache.Following

/-!
# The cache drops the least recently used file

A `RecencySession` uses a recency list in the place of a cache. A new map has an identity of its
own, and any other that enters is kept by a slot, so no dead map comes back to life and the cache
follows the list step by step.
-/

namespace MacroAtlas

/-- A recency list and what its callers keep. -/
structure RecencySession where
  /-- The list. -/
  list : RecencyList
  /-- The maps that callers keep. -/
  holders : Holders
  /-- The identity of the next new map. -/
  nextMap : MapId

namespace RecencySession

/-- A session with an empty list. -/
def ofCapacity (capacity : Nat) : RecencySession := ⟨.ofCapacity capacity, .empty, 0⟩

/-- A caller keeps the map. -/
def held (s : RecencySession) : MapId → Bool := s.holders.holds

/-- The map of a step; an empty slot has none. -/
def resolve (s : RecencySession) : MapSource SpanMap → Option SharedMap × RecencySession
  | .fresh map => (some ⟨s.nextMap, map⟩, { s with nextMap := s.nextMap + 1 })
  | .slot name => (s.holders.slots[name]?, s)

/-- Looks a file up several times; the last look-up counts. -/
def lookUp (s : RecencySession) (file : FileName) : Nat → Option SharedMap × RecencySession
  | 0 => (none, s)
  | times + 1 =>
    let (found, list) := s.list.get s.held file
    let after := { s with list }
    if times = 0 then (found, after) else after.lookUp file times

/-- Hands a map over to a caller. -/
def handOver (s : RecencySession) (m : Option SharedMap) (slot : Option String) :
    Option Holders.Receipt × RecencySession :=
  let (receipt, holders) := s.holders.handOver m slot
  (receipt, { s with holders })

/-- What a loader finds; while it loads it may enter another map for the file. -/
def load (s : RecencySession) (file : FileName) (loaded meanwhile : Option SpanMap)
    (l : RecencyList) : Option SharedMap × RecencyList :=
  (loaded.map (⟨s.nextMap, ·⟩), match meanwhile with
    | some map => l.enter file ⟨s.nextMap + 1, map⟩
    | none => l)

/-- Takes a step. -/
def step (s : RecencySession) : CacheStep FileName SpanMap → CacheAnswer × RecencySession
  | .insert file source hold =>
    match s.resolve source with
    | (none, s) => (.map none, s)
    | (some m, s) =>
      let (receipt, s) := { s with list := s.list.enter file m }.handOver (some m) hold
      (.map receipt, s)
  | .get file times hold =>
    let (found, s) := s.lookUp file times
    let (receipt, s) := s.handOver found hold
    (.map receipt, s)
  | .getOrLoad file loaded meanwhile hold =>
    let (found, list) := s.list.getOrLoad s.held file (s.load file loaded meanwhile)
    let called := s.list.stats.misses < list.stats.misses
    let (receipt, s) := { s with list, nextMap := s.nextMap + 2 }.handOver found hold
    (.loaded receipt called, s)
  | .refresh file source =>
    match s.resolve source with
    | (none, s) => (.told false, s)
    | (some m, s) =>
      let (admitted, list) := s.list.refresh s.held file m
      (.told admitted, { s with list })
  | .invalidate file => (.done, { s with list := s.list.invalidate file })
  | .clear => (.done, { s with list := s.list.clear })
  | .relieve => (.done, { s with list := s.list.relieve })
  | .drop slot =>
    let (kept, holders) := s.holders.drop slot
    (.told kept, { s with holders })

/-- The session after steps. -/
def after (s : RecencySession) (steps : List (CacheStep FileName SpanMap)) : RecencySession :=
  steps.foldl (fun s step => (s.step step).2) s

/-- The answers to steps. -/
def answers (s : RecencySession) : List (CacheStep FileName SpanMap) → List CacheAnswer
  | [] => []
  | step :: rest => (s.step step).1 :: (s.step step).2.answers rest

end RecencySession

namespace Holders

variable {h : Holders} {id : MapId} {m : SharedMap}

/-- The holders have a map where one of their slots has it. -/
theorem holds_iff :
    h.holds id = true ↔ ∃ slot : String, ∃ m : SharedMap, h.slots[slot]? = some m ∧ m.id = id := by
  simp only [holds, List.any_eq_true, beq_iff_eq, Prod.exists,
    Std.ExtTreeMap.mem_toList_iff_getElem?_eq_some]

theorem holds_of_slot {slot : String} (hs : h.slots[slot]? = some m) : h.holds m.id = true :=
  holds_iff.mpr ⟨slot, m, hs, rfl⟩

/-- After a map is handed over, the holders have what they had and that map. -/
theorem holds_of_handOver {found : Option SharedMap} {slot : Option String}
    (hid : (h.handOver found slot).2.holds id = true) :
    h.holds id = true ∨ ∃ m, found = some m ∧ m.id = id := by
  cases found with
  | none => exact Or.inl hid
  | some m =>
      cases slot with
      | none => exact Or.inl hid
      | some slot =>
          obtain ⟨other, m', hs, rfl⟩ := holds_iff.mp hid
          simp only [handOver, keep, Std.ExtTreeMap.getElem?_insert,
            Std.LawfulEqCmp.compare_eq_iff_eq] at hs
          by_cases hslot : slot = other
          · rw [if_pos hslot] at hs
            exact Or.inr ⟨m, rfl, congrArg SharedMap.id (Option.some.inj hs)⟩
          · rw [if_neg hslot] at hs
            exact Or.inl (holds_of_slot hs)

/-- Dropping a slot gives the holders nothing new. -/
theorem holds_of_drop {slot : String} (hid : (h.drop slot).2.holds id = true) :
    h.holds id = true := by
  obtain ⟨other, m, hs, rfl⟩ := holds_iff.mp hid
  simp only [drop, Std.ExtTreeMap.getElem?_erase] at hs
  split at hs
  · cases hs
  · exact holds_of_slot hs

end Holders

namespace RecencySession

variable {capacity : Nat}

@[simp] theorem nextMap_lookUp (t : RecencySession) (file : FileName) (times : Nat) :
    (t.lookUp file times).2.nextMap = t.nextMap := by
  induction times generalizing t with
  | zero => rfl
  | succ times ih =>
      unfold lookUp
      simp only
      split
      · rfl
      · exact ih _

/-- A load keeps the list sound, whatever the loader did to the cache meanwhile. -/
theorem sound_load (t : RecencySession) (file : FileName) (loaded meanwhile : Option SpanMap)
    {l : RecencyList} (h : l.Sound capacity) :
    (t.load file loaded meanwhile l).2.Sound capacity := by
  cases meanwhile with
  | none => exact h
  | some map => exact h.enter file _

end RecencySession

namespace CacheSession

/-- The session after steps. -/
def after (s : CacheSession) (steps : List (CacheStep FileName SpanMap)) : CacheSession :=
  steps.foldl (fun s step => (s.step step).2) s

/-- The answers to steps. -/
def answers (s : CacheSession) : List (CacheStep FileName SpanMap) → List CacheAnswer
  | [] => []
  | step :: rest => (s.step step).1 :: (s.step step).2.answers rest

/-- What a loader finds; while it loads it may enter another map for the file. -/
def load (s : CacheSession) (file : FileName) (loaded meanwhile : Option SpanMap) (c : Cache) :
    Option SharedMap × Cache :=
  (loaded.map (⟨s.nextMap, ·⟩), match meanwhile with
    | some map => c.enter s.held file ⟨s.nextMap + 1, map⟩
    | none => c)

/-- The session goes as the one with a list. -/
structure Follows (used : MapId → Prop) (capacity : Nat) (s : CacheSession) (t : RecencySession) :
    Prop where
  /-- Callers keep the same maps. -/
  holders_eq : s.holders = t.holders
  /-- The next new map has the same identity. -/
  nextMap_eq : s.nextMap = t.nextMap
  /-- The cache follows the list. -/
  cache : s.cache.Follows used t.held capacity t.list

variable {used : MapId → Prop} {capacity : Nat} {s : CacheSession} {t : RecencySession}

namespace Follows

/-- A new session follows the empty list. -/
theorem ofCapacity (used : MapId → Prop) (capacity : Nat) :
    (ofCapacity capacity).Follows used capacity (.ofCapacity capacity) where
  holders_eq := rfl
  nextMap_eq := rfl
  cache := by
    have hheld : (RecencySession.ofCapacity capacity).held = fun _ => false := by
      funext id
      simp [RecencySession.held, RecencySession.ofCapacity, Holders.holds, Holders.empty]
    rw [hheld]
    exact .ofCapacity _ capacity

/-- Both sessions have the same holders. -/
theorem held_eq (h : s.Follows used capacity t) : s.held = t.held := by
  rw [held, RecencySession.held, h.holders_eq]

theorem mono (h : s.Follows used capacity t) {used' : MapId → Prop}
    (hused : ∀ id, used id → used' id) : s.Follows used' capacity t :=
  ⟨h.holders_eq, h.nextMap_eq, h.cache.mono hused⟩

/-- The cache and the list may be replaced in step. -/
theorem withCache (h : s.Follows used capacity t) {used' : MapId → Prop} {c : Cache}
    {l : RecencyList} (hc : c.Follows used' t.held capacity l) :
    CacheSession.Follows used' capacity { s with cache := c } { t with list := l } :=
  ⟨h.holders_eq, h.nextMap_eq, hc⟩

/-- The map of a step is the same. It is alive or new, and after it a new identity is next. -/
theorem resolve (h : s.Follows (· < t.nextMap) capacity t) (source : MapSource SpanMap) :
    ∃ found s' t', s.resolve source = (found, s') ∧ t.resolve source = (found, t') ∧
      s'.Follows (· < t.nextMap) capacity t' ∧ t.nextMap ≤ t'.nextMap ∧
      ∀ m, found = some m → (∀ id, id < t.nextMap ∨ id = m.id → id < t'.nextMap) ∧
        (t'.list.alive t'.held m.id = true ∨ ¬ m.id < t.nextMap) := by
  cases source with
  | fresh map =>
      refine ⟨some ⟨t.nextMap, map⟩, { s with nextMap := s.nextMap + 1 },
        { t with nextMap := t.nextMap + 1 }, ?_, rfl, ⟨h.holders_eq, ?_, h.cache⟩, Nat.le_succ _,
        fun m hm => ?_⟩
      · rw [CacheSession.resolve, bringForth, ← h.nextMap_eq]
      · exact congrArg (· + 1) h.nextMap_eq
      · obtain rfl := Option.some.inj hm
        refine ⟨fun id hid => ?_, Or.inr (Nat.lt_irrefl _)⟩
        exact hid.elim Nat.lt_succ_of_lt fun heq => heq ▸ Nat.lt_succ_self _
  | slot name =>
      refine ⟨t.holders.slots[name]?, s, t, ?_, rfl, h, Nat.le_refl _, fun m hm => ?_⟩
      · rw [CacheSession.resolve, h.holders_eq]
      · have hheld : t.held m.id = true := Holders.holds_of_slot hm
        refine ⟨fun id hid => ?_, Or.inl (RecencyList.alive_of_held hheld)⟩
        exact hid.elim (fun hlt => hlt) fun heq => heq ▸ h.cache.held_used m.id hheld

/-- Looking a file up several times finds the same, and it is alive. -/
theorem lookUp (h : s.Follows used capacity t) (file : FileName) (times : Nat) :
    (s.lookUp file times).1 = (t.lookUp file times).1 ∧
      (s.lookUp file times).2.Follows used capacity (t.lookUp file times).2 ∧
      ∀ m, (t.lookUp file times).1 = some m →
        (t.lookUp file times).2.list.alive (t.lookUp file times).2.held m.id = true := by
  induction times generalizing s t with
  | zero => exact ⟨rfl, h, nofun⟩
  | succ times ih =>
      obtain ⟨hfound, hafter⟩ := h.cache.get file
      have hnext := h.withCache hafter
      have hresident := h.cache.sound.mem_get t.held file
      unfold CacheSession.lookUp RecencySession.lookUp
      rw [h.held_eq]
      simp only
      split
      · refine ⟨hfound, hnext, fun m hm => ?_⟩
        exact RecencyList.alive_of_mem (hresident m hm)
      · exact ih hnext

/-- A living map may be handed over. -/
theorem handOver (h : s.Follows used capacity t) {found found' : Option SharedMap}
    (hfound : found = found') (halive : ∀ m, found' = some m → t.list.alive t.held m.id = true)
    (slot : Option String) :
    (s.handOver found slot).1 = (t.handOver found' slot).1 ∧
      (s.handOver found slot).2.Follows used capacity (t.handOver found' slot).2 := by
  unfold CacheSession.handOver RecencySession.handOver
  rw [h.holders_eq, hfound]
  refine ⟨rfl, rfl, h.nextMap_eq, h.cache.hold fun id hid => ?_⟩
  rcases Holders.holds_of_handOver hid with hheld | ⟨m, hm, rfl⟩
  · exact RecencyList.alive_of_held hheld
  · exact halive m hm

/-- Loaders find the same, and it is new. The map that is entered meanwhile takes the identity after
that. -/
theorem load (h : s.Follows (· < t.nextMap) capacity t) (file : FileName)
    (loaded meanwhile : Option SpanMap) {c : Cache} {l : RecencyList}
    (hc : c.Follows (· < t.nextMap) t.held capacity l) :
    (s.load file loaded meanwhile c).1 = (t.load file loaded meanwhile l).1 ∧
      (s.load file loaded meanwhile c).2.Follows (fun id => id < t.nextMap ∨ id = t.nextMap + 1)
        t.held capacity (t.load file loaded meanwhile l).2 := by
  unfold CacheSession.load RecencySession.load
  rw [h.nextMap_eq, h.held_eq]
  refine ⟨rfl, ?_⟩
  cases meanwhile with
  | none => exact hc.mono fun _ => Or.inl
  | some map =>
      have hnew : ¬ t.nextMap + 1 < t.nextMap := Nat.not_lt.mpr (Nat.le_succ _)
      exact hc.enter (m := ⟨t.nextMap + 1, map⟩) file (Or.inr hnew)

/-- A look-up with these loaders finds the same, and it is alive. Both identities are taken, whether
the loader was needed or not. -/
theorem getOrLoad (h : s.Follows (· < t.nextMap) capacity t) (file : FileName)
    (loaded meanwhile : Option SpanMap) :
    let (found, cache) := s.cache.getOrLoad s.held file (s.load file loaded meanwhile)
    let (found', list) := t.list.getOrLoad t.held file (t.load file loaded meanwhile)
    found = found' ∧
      CacheSession.Follows (· < t.nextMap + 2) capacity
        { s with cache, nextMap := s.nextMap + 2 } { t with list, nextMap := t.nextMap + 2 } ∧
      ∀ m, found' = some m → list.alive t.held m.id = true := by
  have hnew : ∀ l m, (t.load file loaded meanwhile l).1 = some m → m.id = t.nextMap := by
    intro l m hm
    obtain ⟨map, -, rfl⟩ := Option.map_eq_some_iff.mp hm
    rfl
  have hunused : ¬ (t.nextMap < t.nextMap ∨ t.nextMap = t.nextMap + 1) :=
    not_or.mpr ⟨Nat.lt_irrefl _, Nat.ne_of_lt (Nat.lt_succ_self _)⟩
  rw [h.held_eq]
  obtain ⟨hfound, hafter⟩ := h.cache.getOrLoad file (fun _ => Or.inl)
    (fun c l hc => h.load file loaded meanwhile hc)
    (fun l m hm => Or.inr (hnew l m hm ▸ hunused))
  refine ⟨hfound, ⟨h.holders_eq, congrArg (· + 2) h.nextMap_eq, hafter.mono fun id hid => ?_⟩,
    fun m hm => RecencyList.alive_of_mem (h.cache.sound.mem_getOrLoad
      (fun l hl => t.sound_load file loaded meanwhile hl) hm)⟩
  rcases hid with (hid | rfl) | ⟨l, m, hm, rfl⟩
  · exact Nat.lt_add_right 2 hid
  · exact Nat.lt_succ_self _
  · rw [hnew l m hm]
    exact Nat.lt_add_of_pos_right Nat.two_pos

/-- A step has the same answer, and the sessions go on alike. -/
theorem step (h : s.Follows (· < t.nextMap) capacity t) (step : CacheStep FileName SpanMap) :
    (s.step step).1 = (t.step step).1 ∧
      (s.step step).2.Follows (· < (t.step step).2.nextMap) capacity (t.step step).2 := by
  cases step with
  | insert file source hold =>
      obtain ⟨found, s', t', hs, ht, h', hle, hfound⟩ := h.resolve source
      simp only [CacheSession.step, RecencySession.step, hs, ht]
      cases found with
      | none => exact ⟨rfl, h'.mono fun id hid => Nat.lt_of_lt_of_le hid hle⟩
      | some m =>
          obtain ⟨hnext, hm⟩ := hfound m rfl
          have hentered := h'.withCache (h'.cache.enter file hm)
          rw [← h'.held_eq] at hentered
          have halive : ∀ m', some m = some m' → (t'.list.enter file m).alive t'.held m'.id := by
            rintro m' ⟨⟩
            exact RecencyList.alive_of_mem (h'.cache.sound.mem_enter_self file m)
          obtain ⟨hreceipt, hafter⟩ := hentered.handOver rfl halive hold
          exact ⟨congrArg CacheAnswer.map hreceipt, hafter.mono hnext⟩
  | get file times hold =>
      obtain ⟨hfound, hfollows, halive⟩ := h.lookUp file times
      obtain ⟨hreceipt, hafter⟩ := hfollows.handOver hfound halive hold
      refine ⟨congrArg CacheAnswer.map hreceipt, hafter.mono fun id hused => ?_⟩
      exact Nat.lt_of_lt_of_eq hused (t.nextMap_lookUp file times).symm
  | getOrLoad file loaded meanwhile hold =>
      obtain ⟨hfound, hfollows, halive⟩ := h.getOrLoad file loaded meanwhile
      obtain ⟨hreceipt, hafter⟩ := hfollows.handOver hfound halive hold
      have hcalled := congrArg₂
        (fun stats after : CacheStats => decide (stats.misses < after.misses))
        h.cache.ranks.stats_eq hfollows.cache.ranks.stats_eq
      exact ⟨congrArg₂ CacheAnswer.loaded hreceipt hcalled, hafter⟩
  | refresh file source =>
      obtain ⟨found, s', t', hs, ht, h', hle, hfound⟩ := h.resolve source
      simp only [CacheSession.step, RecencySession.step, hs, ht]
      cases found with
      | none => exact ⟨rfl, h'.mono fun id hid => Nat.lt_of_lt_of_le hid hle⟩
      | some m =>
          obtain ⟨hnext, hm⟩ := hfound m rfl
          have hrefresh := h'.cache.refresh file hm
          rw [← congrArg (s'.cache.refresh · file m) h'.held_eq] at hrefresh
          obtain ⟨htold, hrefreshed⟩ := hrefresh
          exact ⟨congrArg CacheAnswer.told htold, (h'.withCache hrefreshed).mono hnext⟩
  | invalidate file => exact ⟨rfl, h.withCache (h.cache.invalidate file)⟩
  | clear => exact ⟨rfl, h.withCache h.cache.clear⟩
  | relieve =>
      simp only [CacheSession.step, RecencySession.step]
      rw [h.held_eq]
      exact ⟨trivial, h.withCache h.cache.relieve⟩
  | drop slot =>
      simp only [CacheSession.step, RecencySession.step]
      rw [h.holders_eq]
      refine ⟨rfl, rfl, h.nextMap_eq, h.cache.hold fun id hid => ?_⟩
      exact RecencyList.alive_of_held (Holders.holds_of_drop hid)

/-- Any sequence of steps keeps a session following its list. -/
theorem after (h : s.Follows (· < t.nextMap) capacity t)
    (steps : List (CacheStep FileName SpanMap)) :
    (s.after steps).Follows (· < (t.after steps).nextMap) capacity (t.after steps) := by
  induction steps generalizing s t with
  | nil => exact h
  | cons step rest ih => exact ih (h.step step).2

/-- A session that follows a list answers as the list does. -/
theorem answers (h : s.Follows (· < t.nextMap) capacity t)
    (steps : List (CacheStep FileName SpanMap)) : s.answers steps = t.answers steps := by
  induction steps generalizing s t with
  | nil => rfl
  | cons step rest ih =>
      obtain ⟨hanswer, hafter⟩ := h.step step
      exact congrArg₂ List.cons hanswer (ih hafter)

end Follows

/-- The cache answers as a recency list of its capacity, so an admission drops exactly the least
recently used file. -/
theorem exact_recency (capacity : Nat) (steps : List (CacheStep FileName SpanMap)) :
    (ofCapacity capacity).answers steps = (RecencySession.ofCapacity capacity).answers steps ∧
      let s := (ofCapacity capacity).after steps
      let l := ((RecencySession.ofCapacity capacity).after steps).list
      (∀ file, (s.cache.resident[file]?).map (·.shared) = l.find? file) ∧
        s.cache.size = l.entries.length ∧ s.cache.stats = l.stats ∧
        (l.entries.map (·.1)).Nodup ∧ l.entries.length ≤ max capacity 1 := by
  have hstart := Follows.ofCapacity (· < (RecencySession.ofCapacity capacity).nextMap) capacity
  obtain ⟨hranks, hsound, -⟩ := (hstart.after steps).cache
  have hbounded := hsound.bounded
  rw [hsound.capacity_eq] at hbounded
  exact ⟨hstart.answers steps, fun file => (hranks.find?_eq file).symm, hranks.size_eq,
    hranks.stats_eq, hranks.nodup_files, hbounded⟩

end CacheSession

end MacroAtlas
