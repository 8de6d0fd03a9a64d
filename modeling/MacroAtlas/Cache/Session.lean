import MacroAtlas.Cache.Basic
import MacroAtlas.Store.Fault

/-!
# Sessions with a cache

Callers use one cache step by step and keep some of the maps they get. A step whose names or links
are refused changes nothing. Steps are written once for both sides of this check.
-/

namespace MacroAtlas

/-- Where the map of a step comes from. -/
inductive MapSource (μ : Type) where
  /-- It is a new map. -/
  | fresh (map : μ)
  /-- It is the very map that a slot keeps. -/
  | slot (name : String)
  deriving DecidableEq

/-- A step of a session with a cache, over files of type `φ` and maps of type `μ`. -/
inductive CacheStep (φ μ : Type) where
  /-- Enters a map for a file. -/
  | insert (file : φ) (source : MapSource μ) (hold : Option String)
  /-- Looks a file up several times. -/
  | get (file : φ) (times : Nat) (hold : Option String)
  /-- Looks a file up with a loader, which may enter another map for it while it loads. -/
  | getOrLoad (file : φ) (loaded meanwhile : Option μ) (hold : Option String)
  /-- Enters a map for a file that has one. -/
  | refresh (file : φ) (source : MapSource μ)
  /-- Drops and forgets the map of a file. -/
  | invalidate (file : φ)
  /-- Drops and forgets all maps. -/
  | clear
  /-- Drops the maps that only the cache keeps alive. -/
  | relieve
  /-- Empties a slot. -/
  | drop (slot : String)
  deriving DecidableEq

/-- What a caller learns from a step. -/
inductive CacheAnswer where
  /-- The map asked for. -/
  | map (receipt : Option Holders.Receipt)
  /-- The map asked for, and whether the loader was needed. -/
  | loaded (receipt : Option Holders.Receipt) (called : Bool)
  /-- Whether the step found what it was about. -/
  | told (found : Bool)
  /-- Nothing. -/
  | done
  deriving DecidableEq

/-- Checks an optional map. -/
def optionalMapOfLinks : Option (List Link) → Except StoreFault (Option SpanMap)
  | none => .ok none
  | some links => (mapOfLinks links).map some

/-- Checks the map of a step. -/
def MapSource.check : MapSource (List Link) → Except StoreFault (MapSource SpanMap)
  | .fresh links => (mapOfLinks links).map .fresh
  | .slot name => .ok (.slot name)

/-- Checks a step: the file first, then its maps in order. -/
def CacheStep.check : CacheStep String (List Link) → Except StoreFault (CacheStep FileName SpanMap)
  | .insert name source hold => do
    let file ← FileName.ofText name
    return .insert file (← source.check) hold
  | .get name times hold => do return .get (← FileName.ofText name) times hold
  | .getOrLoad name loaded meanwhile hold => do
    let file ← FileName.ofText name
    let loaded ← optionalMapOfLinks loaded
    return .getOrLoad file loaded (← optionalMapOfLinks meanwhile) hold
  | .refresh name source => do
    let file ← FileName.ofText name
    return .refresh file (← source.check)
  | .invalidate name => do return .invalidate (← FileName.ofText name)
  | .clear => .ok .clear
  | .relieve => .ok .relieve
  | .drop slot => .ok (.drop slot)

/-- A cache and what its callers keep. -/
structure CacheSession where
  /-- The cache. -/
  cache : Cache
  /-- The maps that callers keep. -/
  holders : Holders
  /-- The identity of the next new map. -/
  nextMap : MapId

namespace CacheSession

/-- A session with an empty cache. -/
def ofCapacity (capacity : Nat) : CacheSession := ⟨.ofCapacity capacity, .empty, 0⟩

/-- A caller keeps the map. -/
def held (s : CacheSession) : MapId → Bool := s.holders.holds

/-- Brings a map to life. -/
def bringForth (s : CacheSession) (map : SpanMap) : SharedMap × CacheSession :=
  (⟨s.nextMap, map⟩, { s with nextMap := s.nextMap + 1 })

/-- The map of a step; an empty slot has none. -/
def resolve (s : CacheSession) : MapSource SpanMap → Option SharedMap × CacheSession
  | .fresh map => let (m, s) := s.bringForth map; (some m, s)
  | .slot name => (s.holders.slots[name]?, s)

/-- Looks a file up several times; the last look-up counts. -/
def lookUp (s : CacheSession) (file : FileName) : Nat → Option SharedMap × CacheSession
  | 0 => (none, s)
  | times + 1 =>
    let (found, cache) := s.cache.get s.held file
    let after := { s with cache }
    if times = 0 then (found, after) else after.lookUp file times

/-- Hands a map over to a caller. -/
def handOver (s : CacheSession) (m : Option SharedMap) (slot : Option String) :
    Option Holders.Receipt × CacheSession :=
  let (receipt, holders) := s.holders.handOver m slot
  (receipt, { s with holders })

/-- Takes a checked step. -/
def step (s : CacheSession) : CacheStep FileName SpanMap → CacheAnswer × CacheSession
  | .insert file source hold =>
    match s.resolve source with
    | (none, s) => (.map none, s)
    | (some m, s) =>
      let entered := { s with cache := s.cache.enter s.held file m }
      let (receipt, s) := entered.handOver (some m) hold
      (.map receipt, s)
  | .get file times hold =>
    let (found, s) := s.lookUp file times
    let (receipt, s) := s.handOver found hold
    (.map receipt, s)
  | .getOrLoad file loaded meanwhile hold =>
    let loadedId := s.nextMap
    let meanwhileId := s.nextMap + 1
    let load (c : Cache) : Option SharedMap × Cache :=
      (loaded.map (⟨loadedId, ·⟩), match meanwhile with
        | some map => c.enter s.held file ⟨meanwhileId, map⟩
        | none => c)
    let (found, cache) := s.cache.getOrLoad s.held file load
    let called := s.cache.stats.misses < cache.stats.misses
    let (receipt, s) := { s with cache, nextMap := s.nextMap + 2 }.handOver found hold
    (.loaded receipt called, s)
  | .refresh file source =>
    match s.resolve source with
    | (none, s) => (.told false, s)
    | (some m, s) =>
      let (entered, cache) := s.cache.refresh s.held file m
      (.told entered, { s with cache })
  | .invalidate file => (.done, { s with cache := s.cache.invalidate file })
  | .clear => (.done, { s with cache := s.cache.clear })
  | .relieve => (.done, { s with cache := s.cache.relieve s.held })
  | .drop slot =>
    let (kept, holders) := s.holders.drop slot
    (.told kept, { s with holders })

/-- Checks a step and takes it. -/
def attempt (s : CacheSession) (step : CacheStep String (List Link)) :
    Except StoreFault CacheAnswer × CacheSession :=
  match step.check with
  | .error fault => (.error fault, s)
  | .ok checked =>
    let (answer, s) := s.step checked
    (.ok answer, s)

end CacheSession

end MacroAtlas
