import MacroAtlas.Proofs.Cache.Residency

/-!
# Runs of a cache

Callers take turns with a cache. Only a look-up with a loader takes several: what others and the
loader itself do meanwhile are calls in between. Each call comes with what the callers keep at that
time.
-/

namespace MacroAtlas

/-- What a caller has a cache do at once. -/
inductive CacheCall where
  /-- Looks a file up. -/
  | get (held : MapId → Bool) (file : FileName)
  /-- Counts a look-up that has to load. -/
  | countMiss
  /-- Enters a map for a file. -/
  | enter (held : MapId → Bool) (file : FileName) (m : SharedMap)
  /-- Enters a map for a file that has one. -/
  | refresh (held : MapId → Bool) (file : FileName) (m : SharedMap)
  /-- Drops and forgets the map of a file. -/
  | invalidate (file : FileName)
  /-- Drops and forgets all maps. -/
  | clear
  /-- Drops the maps that only the cache keeps alive. -/
  | relieve (held : MapId → Bool)

namespace Cache

/-- The cache after a call. -/
def act (c : Cache) : CacheCall → Cache
  | .get held file => (c.get held file).2
  | .countMiss => c.countMiss
  | .enter held file m => c.enter held file m
  | .refresh held file m => (c.refresh held file m).2
  | .invalidate file => c.invalidate file
  | .clear => c.clear
  | .relieve held => c.relieve held

/-- The cache after a run. -/
def afterCalls (c : Cache) (calls : List CacheCall) : Cache := calls.foldl act c

/-- A look-up whose loader makes calls and comes back with a map, or with none, is a run. -/
theorem getOrLoad_eq_afterCalls (c : Cache) (held : MapId → Bool) (file : FileName)
    (found : Option SharedMap) (loading : List CacheCall) :
    (c.getOrLoad held file fun c => (found, c.afterCalls loading)).2 =
      c.afterCalls (.get held file :: if (c.get held file).1.isSome then []
        else .countMiss :: loading ++ (found.map (.enter held file)).toList) := by
  have hget : c.act (.get held file) = (c.get held file).2 := rfl
  rw [afterCalls, List.foldl_cons, hget, getOrLoad]
  rcases c.get held file with ⟨_ | m, after⟩
  · cases found with
    | none => simp [afterCalls, act]
    | some m => simp [afterCalls, act]
  · rfl

/-- What each call keeps, a run keeps. -/
theorem afterCalls_of_act {P : Cache → Prop} (hact : ∀ c call, P c → P (c.act call)) {c : Cache}
    (h : P c) (calls : List CacheCall) : P (c.afterCalls calls) := by
  induction calls generalizing c with
  | nil => exact h
  | cons call rest ih => exact ih (hact c call h)

/-- A refresh enters the map or leaves the cache alone. -/
theorem KeptByUse.refresh {P : Cache → Prop} {held : MapId → Bool} {file : FileName}
    (h : KeptByUse P held file) {c : Cache} (hc : P c) (m : SharedMap) :
    P (c.refresh held file m).2 := by
  unfold Cache.refresh
  split
  · exact h.enter c m hc
  · exact hc

end Cache

end MacroAtlas
