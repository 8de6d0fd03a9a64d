import MacroAtlas.Proofs.Cache.LeastRecent

/-!
# The cache serves what was last admitted

The history of a session lists the admissions and what was dropped from the outside. A look-up finds
the map that the history names last for the file, if it is still alive: the list that the cache
follows remembers all that was admitted.
-/

namespace MacroAtlas

/-- What callers do about the map of a file. -/
inductive CacheEvent where
  /-- A map is admitted for the file. -/
  | admitted (file : FileName) (m : SharedMap)
  /-- The file is dropped and forgotten. -/
  | invalidated (file : FileName)
  /-- All files are dropped and forgotten. -/
  | cleared

namespace CacheEvent

/-- What was last admitted for a file, after one more event. -/
def follow (file : FileName) (last : Option SharedMap) : CacheEvent → Option SharedMap
  | .admitted other m => if file = other then some m else last
  | .invalidated other => if file = other then none else last
  | .cleared => none

end CacheEvent

/-- What was last admitted for a file, unless it was dropped from the outside since. -/
def lastAdmitted (file : FileName) (history : List CacheEvent) : Option SharedMap :=
  history.foldl (CacheEvent.follow file) none

namespace RecencyList

variable {l : RecencyList} {capacity : Nat} {held : MapId → Bool} {file : FileName} {m : SharedMap}

/-- A resident map is the last one admitted, and alive. -/
theorem Sound.living?_of_find? (h : l.Sound capacity) (hf : l.find? file = some m) :
    l.living? held file = some m := by
  have hm := mem_entries_of_find? hf
  exact Option.filter_eq_some_iff.mpr ⟨h.current file m hm, alive_of_mem hm⟩

/-- A look-up finds what was last admitted and is alive. -/
theorem Sound.get_fst (h : l.Sound capacity) (held : MapId → Bool) (file : FileName) :
    (l.get held file).1 = l.living? held file := by
  unfold RecencyList.get
  cases hf : l.find? file with
  | some m => exact (h.living?_of_find? hf).symm
  | none => cases hl : l.living? held file <;> rfl

/-- A look-up that finds nothing leaves the list as it is. -/
theorem get_eq_self (h : (l.get held file).1 = none) : l.get held file = (none, l) := by
  unfold RecencyList.get at h ⊢
  cases hf : l.find? file with
  | some m =>
      rw [hf] at h
      cases h
  | none =>
      cases hl : l.living? held file with
      | some m =>
          rw [hf, hl] at h
          cases h
      | none => rfl

/-- A map that a look-up adopts again was the last one admitted already. -/
theorem admitted_get (l : RecencyList) (held : MapId → Bool) (file : FileName) :
    (l.get held file).2.admitted = l.admitted := by
  unfold RecencyList.get
  cases hf : l.find? file with
  | some m => rfl
  | none =>
      cases hl : l.living? held file with
      | none => rfl
      | some m =>
          have hadmitted := (Option.filter_eq_some_iff.mp hl).1
          funext other
          simp only [admitted_enter]
          split
          · next heq => rw [heq, hadmitted]
          · rfl

theorem misses_enter (l : RecencyList) (file : FileName) (m : SharedMap) :
    (l.enter file m).stats.misses = l.stats.misses := by
  unfold enter
  simp only
  split <;> rfl

/-- A look-up alone counts no miss. -/
theorem misses_get (l : RecencyList) (held : MapId → Bool) (file : FileName) :
    (l.get held file).2.stats.misses = l.stats.misses := by
  unfold RecencyList.get
  split
  · rfl
  · split
    · rfl
    · exact misses_enter _ file _

/-- A look-up with a loader does without it where there is a living map. -/
theorem Sound.getOrLoad_of_living (h : l.Sound capacity)
    (load : RecencyList → Option SharedMap × RecencyList) (hl : l.living? held file = some m) :
    l.getOrLoad held file load = (some m, (l.get held file).2) := by
  have hfound : l.get held file = (some m, (l.get held file).2) :=
    Prod.ext ((h.get_fst held file).trans hl) rfl
  rw [getOrLoad, hfound]

/-- A look-up with a loader calls it where there is none. -/
theorem Sound.getOrLoad_of_not_living (h : l.Sound capacity)
    (load : RecencyList → Option SharedMap × RecencyList) (hl : l.living? held file = none) :
    l.getOrLoad held file load = match load l.countMiss with
      | (none, loaded) => (none, loaded)
      | (some m, loaded) => (some m, loaded.enter file m) := by
  have hget := get_eq_self ((h.get_fst held file).trans hl)
  rcases hload : load l.countMiss with ⟨_ | m, loaded⟩
  · simp only [getOrLoad, hget, hload]
  · simp only [getOrLoad, hget, hload]

/-- A look-up with a loader is a miss where it calls it. -/
theorem Sound.misses_getOrLoad (h : l.Sound capacity) (held : MapId → Bool) (file : FileName)
    {load : RecencyList → Option SharedMap × RecencyList}
    (hload : ∀ l, (load l).2.stats.misses = l.stats.misses) :
    (l.getOrLoad held file load).2.stats.misses =
      l.stats.misses + if (l.living? held file).isNone then 1 else 0 := by
  cases hl : l.living? held file with
  | some m =>
      rw [h.getOrLoad_of_living load hl]
      exact l.misses_get held file
  | none =>
      have hmisses := hload l.countMiss
      rw [h.getOrLoad_of_not_living load hl]
      generalize load l.countMiss = ended at hmisses ⊢
      obtain ⟨found, after⟩ := ended
      cases found with
      | none => exact hmisses
      | some m => exact (after.misses_enter file m).trans hmisses

end RecencyList

/-- What a look-up with a loader admits when it calls the loader: first what enters meanwhile, then
what is loaded. -/
def loaderEvents (nextMap : MapId) (file : FileName) (loaded meanwhile : Option SpanMap) :
    List CacheEvent :=
  (meanwhile.map fun map => .admitted file ⟨nextMap + 1, map⟩).toList ++
    (loaded.map fun map => .admitted file ⟨nextMap, map⟩).toList

namespace RecencySession

variable {capacity : Nat}

@[simp] theorem list_resolve (t : RecencySession) (source : MapSource SpanMap) :
    (t.resolve source).2.list = t.list := by
  cases source <;> rfl

theorem admitted_lookUp (t : RecencySession) (file : FileName) (times : Nat) :
    (t.lookUp file times).2.list.admitted = t.list.admitted := by
  induction times generalizing t with
  | zero => rfl
  | succ times ih =>
      have hget := t.list.admitted_get t.held file
      unfold lookUp
      simp only
      split
      · exact hget
      · exact (ih _).trans hget

section GetOrLoad

variable {t : RecencySession} (h : t.list.Sound capacity) (file : FileName)
  (loaded meanwhile : Option SpanMap) (hold : Option String)

include h

/-- The answer tells that the loader was called exactly where there was no living map. -/
theorem answer_getOrLoad : ∃ receipt, (t.step (.getOrLoad file loaded meanwhile hold)).1 =
    .loaded receipt (t.list.living? t.held file).isNone := by
  have hload : ∀ l, (t.load file loaded meanwhile l).2.stats.misses = l.stats.misses := by
    intro l
    cases meanwhile with
    | none => rfl
    | some map => exact l.misses_enter file _
  have hmisses := h.misses_getOrLoad t.held file hload
  have hcalled : decide (t.list.stats.misses <
      (t.list.getOrLoad t.held file (t.load file loaded meanwhile)).2.stats.misses) =
        (t.list.living? t.held file).isNone := by
    rw [hmisses]
    cases t.list.living? t.held file with
    | none => exact decide_eq_true (Nat.lt_succ_self _)
    | some m => exact decide_eq_false (Nat.lt_irrefl _)
  exact ⟨_, congrArg (CacheAnswer.loaded _) hcalled⟩

/-- Where a live map is found, the loader is not called and nothing is admitted. -/
theorem admitted_getOrLoad_of_living {m : SharedMap} (hl : t.list.living? t.held file = some m) :
    (t.step (.getOrLoad file loaded meanwhile hold)).2.list.admitted = t.list.admitted := by
  have hlist := h.getOrLoad_of_living (t.load file loaded meanwhile) hl
  simp only [step, handOver, hlist]
  exact t.list.admitted_get t.held file

theorem admitted_getOrLoad_of_not_living (hl : t.list.living? t.held file = none)
    (other : FileName) :
    (t.step (.getOrLoad file loaded meanwhile hold)).2.list.admitted other =
      (loaderEvents t.nextMap file loaded meanwhile).foldl (CacheEvent.follow other)
        (t.list.admitted other) := by
  have hlist := h.getOrLoad_of_not_living (t.load file loaded meanwhile) hl
  have hmeanwhile : (t.load file loaded meanwhile t.list.countMiss).2.admitted other =
      ((meanwhile.map fun map => CacheEvent.admitted file ⟨t.nextMap + 1, map⟩).toList).foldl
        (CacheEvent.follow other) (t.list.admitted other) := by
    cases meanwhile with
    | none => rfl
    | some map => exact RecencyList.admitted_enter _ file _ other
  rw [loaderEvents, List.foldl_append, ← hmeanwhile]
  simp only [step, handOver, hlist, load]
  cases loaded with
  | none => rfl
  | some map => exact RecencyList.admitted_enter _ file _ other

end GetOrLoad

end RecencySession

namespace CacheSession

/-- The events of a step. A look-up that adopts a map again has none. -/
def events (s : CacheSession) (step : CacheStep FileName SpanMap) : List CacheEvent :=
  match step, (s.step step).1 with
  | .insert file source _, _ => ((s.resolve source).1.map (.admitted file)).toList
  | .getOrLoad file loaded meanwhile _, .loaded _ true =>
    loaderEvents s.nextMap file loaded meanwhile
  | .refresh file source, .told true => ((s.resolve source).1.map (.admitted file)).toList
  | .invalidate file, _ => [.invalidated file]
  | .clear, _ => [.cleared]
  | _, _ => []

/-- The events of a run. -/
def history (s : CacheSession) : List (CacheStep FileName SpanMap) → List CacheEvent
  | [] => []
  | step :: rest => s.events step ++ (s.step step).2.history rest

variable {capacity : Nat} {s : CacheSession} {t : RecencySession}

namespace Follows

theorem resolve_fst (h : s.Follows (· < t.nextMap) capacity t) (source : MapSource SpanMap) :
    (s.resolve source).1 = (t.resolve source).1 := by
  obtain ⟨found, s', t', hs, ht, -⟩ := h.resolve source
  rw [hs, ht]

/-- What the list remembers to be admitted goes along with the events. -/
theorem admitted_step (h : s.Follows (· < t.nextMap) capacity t)
    (step : CacheStep FileName SpanMap) (other : FileName) :
    (t.step step).2.list.admitted other =
      (s.events step).foldl (CacheEvent.follow other) (t.list.admitted other) := by
  have hanswer := (h.step step).1
  have hsound := h.cache.sound
  unfold events
  rw [hanswer]
  cases step with
  | insert file source hold =>
      simp only [RecencySession.step, h.resolve_fst]
      rw [← t.list_resolve source]
      obtain ⟨found, t'⟩ := t.resolve source
      cases found with
      | none => rfl
      | some m => exact t'.list.admitted_enter file m other
  | get file times hold => exact congrFun (t.admitted_lookUp file times) other
  | getOrLoad file loaded meanwhile hold =>
      obtain ⟨receipt, hcalled⟩ := RecencySession.answer_getOrLoad hsound file loaded meanwhile hold
      rw [hcalled]
      cases hl : t.list.living? t.held file with
      | some m =>
          exact congrFun
            (RecencySession.admitted_getOrLoad_of_living hsound file loaded meanwhile hold hl) other
      | none =>
          rw [h.nextMap_eq]
          exact RecencySession.admitted_getOrLoad_of_not_living hsound file loaded meanwhile hold hl
            other
  | refresh file source =>
      have hlist := t.list_resolve source
      have hfound := h.resolve_fst source
      simp only [RecencySession.step]
      generalize t.resolve source = resolved at hlist hfound ⊢
      obtain ⟨found, t'⟩ := resolved
      rw [← hlist]
      cases found with
      | none => rfl
      | some m =>
          simp only [RecencyList.refresh]
          split
          · simp only [hfound]
            exact t'.list.admitted_enter file m other
          · rfl
  | invalidate file => rfl
  | clear => rfl
  | relieve => rfl
  | drop slot => rfl

/-- The last map admitted for a file is read off the history of the run. -/
theorem admitted_after (h : s.Follows (· < t.nextMap) capacity t)
    (steps : List (CacheStep FileName SpanMap)) (file : FileName) :
    (t.after steps).list.admitted file =
      (s.history steps).foldl (CacheEvent.follow file) (t.list.admitted file) := by
  induction steps generalizing s t with
  | nil => rfl
  | cons step rest ih =>
      rw [history, List.foldl_append, ← h.admitted_step step file]
      exact ih (h.step step).2

end Follows

end CacheSession

namespace Cache

variable {c : Cache} {l : RecencyList} {capacity : Nat} {held : MapId → Bool} {used : MapId → Prop}
  {file : FileName}

/-- A look-up that finds nothing leaves the cache as it is. -/
theorem get_eq_self (h : (c.get held file).1 = none) : c.get held file = (none, c) := by
  unfold get at h ⊢
  cases ht : c.touch? file with
  | some found =>
      rw [ht] at h
      cases h
  | none =>
      cases hl : c.living? held file with
      | some m =>
          rw [ht, hl] at h
          cases h
      | none => rfl

/-- The loader is called, with a miss counted, where a look-up finds nothing. -/
theorem getOrLoad_eq (c : Cache) (held : MapId → Bool) (file : FileName)
    (load : Cache → Option SharedMap × Cache) :
    c.getOrLoad held file load = match (c.get held file).1 with
      | some m => (some m, (c.get held file).2)
      | none => match load c.countMiss with
        | (none, loaded) => (none, loaded)
        | (some m, loaded) => (some m, loaded.enter held file m) := by
  cases hf : (c.get held file).1 with
  | none =>
      have hget := get_eq_self hf
      rcases hload : load c.countMiss with ⟨_ | m, loaded⟩
      · simp only [getOrLoad, hget, hload]
      · simp only [getOrLoad, hget, hload]
  | some m =>
      have hfound : c.get held file = (some m, (c.get held file).2) := Prod.ext hf rfl
      rw [getOrLoad, hfound]

namespace Follows

/-- A look-up finds what is remembered and alive. -/
theorem get_fst (h : c.Follows used held capacity l) (file : FileName) :
    (c.get held file).1 = (l.admitted file).filter fun m => c.alive held m.id := by
  rw [(h.get file).1, h.sound.get_fst, RecencyList.living?, h.ranks.alive_eq]

/-- A map is admitted for the files that a look-up finds. -/
theorem refresh_eq (h : c.Follows used held capacity l) (file : FileName) (m : SharedMap) :
    c.refresh held file m =
      if (c.get held file).1.isSome then (true, c.enter held file m) else (false, c) := by
  have hcontains : c.resident.contains file = (l.find? file).isSome := by
    rw [h.ranks.find?_eq, Option.isSome_map, Std.ExtTreeMap.contains_eq_isSome_getElem?]
  have hresident : (l.find? file).isSome = true → (l.living? held file).isSome = true := by
    intro hf
    obtain ⟨resident, hresident⟩ := Option.isSome_iff_exists.mp hf
    exact Option.isSome_iff_exists.mpr ⟨resident, h.sound.living?_of_find? hresident⟩
  rw [Cache.refresh, hcontains, h.living, (h.get file).1, h.sound.get_fst]
  congr 1
  rw [Bool.or_eq_true, or_iff_right_of_imp hresident]

end Follows

end Cache

namespace CacheSession

/-- A look-up finds the map that was last admitted for the file, unless it was dropped or nobody
keeps it alive. -/
theorem get_serves_last_admitted (capacity : Nat) (steps : List (CacheStep FileName SpanMap))
    (file : FileName) :
    let s := (ofCapacity capacity).after steps
    let live := (lastAdmitted file ((ofCapacity capacity).history steps)).filter fun m =>
      s.cache.alive s.held m.id
    (s.cache.get s.held file).1 = live ∧
      (∀ load, s.cache.getOrLoad s.held file load = match live with
        | some m => (some m, (s.cache.get s.held file).2)
        | none => match load s.cache.countMiss with
          | (none, loaded) => (none, loaded)
          | (some m, loaded) => (some m, loaded.enter s.held file m)) ∧
      (∀ loaded meanwhile hold, ∃ receipt,
        (s.step (.getOrLoad file loaded meanwhile hold)).1 = .loaded receipt live.isNone) ∧
      ∀ m, s.cache.refresh s.held file m =
        if live.isSome then (true, s.cache.enter s.held file m) else (false, s.cache) := by
  intro s live
  have hstart := Follows.ofCapacity (· < (RecencySession.ofCapacity capacity).nextMap) capacity
  have hs := hstart.after steps
  have hadmitted := hstart.admitted_after steps file
  have hcache := hs.cache
  rw [← hs.held_eq] at hcache
  have hget : (s.cache.get s.held file).1 = live := by
    rw [hcache.get_fst, hadmitted]
    rfl
  refine ⟨hget, fun load => ?_, fun loaded meanwhile hold => ?_, fun m => ?_⟩
  · rw [← hget]
    exact s.cache.getOrLoad_eq s.held file load
  · have hanswer := (hs.step (.getOrLoad file loaded meanwhile hold)).1
    have hliving := (hcache.get file).1.trans (hcache.sound.get_fst s.held file)
    rw [hanswer, ← hget, hliving, hs.held_eq]
    exact RecencySession.answer_getOrLoad hcache.sound file loaded meanwhile hold
  · rw [← hget]
    exact hcache.refresh_eq file m

end CacheSession

end MacroAtlas
