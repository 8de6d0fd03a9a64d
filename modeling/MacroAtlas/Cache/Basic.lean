import MacroAtlas.Cache.Recency
import MacroAtlas.Holders

/-!
# The cache of maps

The cache keeps at most `capacity` maps alive and drops the least recently used one when there are
more. It remembers the last map of each file without keeping it alive, so one that somebody holds is
adopted again. Recency is a queue of uses, of which stale ones are skipped or swept out.
-/

namespace MacroAtlas

/-- How look-ups and entries have fared. -/
structure CacheStats where
  /-- Look-ups served by a resident map. -/
  hits : Nat := 0
  /-- Look-ups served by adopting a map that was still alive. -/
  revived : Nat := 0
  /-- Look-ups that had to load. -/
  misses : Nat := 0
  /-- Maps dropped to stay within the capacity. -/
  evictions : Nat := 0
  deriving DecidableEq, Repr

/-- A map that the cache keeps alive. -/
structure Resident where
  /-- The map. -/
  shared : SharedMap
  /-- The stamp of the last use. -/
  stamp : Nat
  deriving DecidableEq

/-- A bounded cache of maps. -/
structure Cache where
  /-- The greatest number of resident maps. -/
  capacity : Nat
  /-- The maps kept alive. -/
  resident : Std.ExtTreeMap FileName Resident compare
  /-- The uses that count or once counted. -/
  queue : Recency
  /-- The last map of each file, alive or not. -/
  remembered : Std.ExtTreeMap FileName SharedMap compare
  /-- The stamp of the next use. -/
  nextStamp : Nat
  /-- How look-ups and entries have fared. -/
  stats : CacheStats

namespace Cache

/-- The number of maps kept alive when the caller names none. -/
def defaultCapacity : Nat := 256

/-- The greatest number that fits a machine word; products stop there. -/
def wordMax : Nat := UInt64.size - 1

/-- An empty cache. A capacity of zero counts as one. -/
def ofCapacity (capacity : Nat) : Cache where
  capacity := max capacity 1
  resident := ∅
  queue := .empty
  remembered := ∅
  nextStamp := 0
  stats := {}

/-- The number of resident maps. -/
def size (c : Cache) : Nat := c.resident.size

/-- Some file has the map resident. -/
def keeps (c : Cache) (id : MapId) : Bool := c.resident.toList.any fun e => e.2.shared.id == id

/-- The map is alive: a caller or the cache keeps it. -/
def alive (c : Cache) (held : MapId → Bool) (id : MapId) : Bool := held id || c.keeps id

/-- The number of records from which on the queue is swept. -/
def queueLimit (c : Cache) : Nat := max (min (4 * c.capacity) wordMax) 64

/-- The number of remembered maps from which on the dead ones are forgotten. -/
def rememberedLimit (c : Cache) : Nat := min (2 * c.capacity) wordMax

/-- Replaces a queue that has grown too long by one record for each resident file. -/
def sweepQueue (c : Cache) : Cache :=
  if c.queue.size ≤ c.queueLimit then c
  else
    let uses := c.resident.toList.map fun e => (⟨e.1, e.2.stamp⟩ : Use)
    { c with queue := .ofList (uses.mergeSort fun a b => a.stamp ≤ b.stamp) }

/-- Forgets the remembered maps that nobody keeps alive. -/
def forgetDead (c : Cache) (held : MapId → Bool) : Cache :=
  { c with remembered := c.remembered.filter fun _ m => c.alive held m.id }

/-- Drops least recently used files until the capacity suffices or the uses, oldest first, are
exhausted. -/
def evictFrom (c : Cache) : List Use → Cache
  | [] => { c with queue := .empty }
  | use :: rest =>
    if c.resident.size ≤ c.capacity then { c with queue := .ofList (use :: rest) }
    else if (c.resident[use.file]?).any (·.stamp == use.stamp) then
      evictFrom { c with
        resident := c.resident.erase use.file
        stats := { c.stats with evictions := c.stats.evictions + 1 } } rest
    else evictFrom c rest

/-- Brings the cache back within its capacity. -/
def evict (c : Cache) (held : MapId → Bool) : Cache :=
  let within := if c.resident.size ≤ c.capacity then c else c.evictFrom c.queue.toList
  if within.rememberedLimit < within.remembered.size then within.forgetDead held else within

/-- Makes a map the resident map of a file, as its most recent use. -/
def enter (c : Cache) (held : MapId → Bool) (file : FileName) (m : SharedMap) : Cache :=
  let entered : Cache := { c with
    remembered := c.remembered.insert file m
    queue := c.queue.push ⟨file, c.nextStamp⟩
    resident := c.resident.insert file ⟨m, c.nextStamp⟩
    nextStamp := c.nextStamp + 1 }
  (entered.evict held).sweepQueue

/-- Uses the resident map of a file. -/
def touch? (c : Cache) (file : FileName) : Option (SharedMap × Cache) :=
  match c.resident[file]? with
  | none => none
  | some entry =>
    let used : Cache := { c with
      resident := c.resident.insert file { entry with stamp := c.nextStamp }
      queue := c.queue.push ⟨file, c.nextStamp⟩
      nextStamp := c.nextStamp + 1 }
    some (entry.shared, used.sweepQueue)

/-- The map that is remembered for a file, if it is still alive. -/
def living? (c : Cache) (held : MapId → Bool) (file : FileName) : Option SharedMap :=
  c.remembered[file]?.filter fun m => c.alive held m.id

/-- The map of a file, resident or adopted again. -/
def get (c : Cache) (held : MapId → Bool) (file : FileName) : Option SharedMap × Cache :=
  match c.touch? file with
  | some (m, used) =>
    (some m, { used with stats := { used.stats with hits := used.stats.hits + 1 } })
  | none =>
    match c.living? held file with
    | none => (none, c)
    | some m =>
      let counted := { c with stats := { c.stats with revived := c.stats.revived + 1 } }
      (some m, counted.enter held file m)

/-- Counts a look-up that has to load. -/
def countMiss (c : Cache) : Cache :=
  { c with stats := { c.stats with misses := c.stats.misses + 1 } }

/-- The map of a file, from the cache or from a loader, which may use the cache itself. -/
def getOrLoad (c : Cache) (held : MapId → Bool) (file : FileName)
    (load : Cache → Option SharedMap × Cache) : Option SharedMap × Cache :=
  match c.get held file with
  | (some m, after) => (some m, after)
  | (none, after) =>
    match load after.countMiss with
    | (none, loaded) => (none, loaded)
    | (some m, loaded) => (some m, loaded.enter held file m)

/-- Admits a map for a file only if the file has a map that is resident or alive; tells whether. -/
def refresh (c : Cache) (held : MapId → Bool) (file : FileName) (m : SharedMap) : Bool × Cache :=
  if c.resident.contains file || (c.living? held file).isSome then (true, c.enter held file m)
  else (false, c)

/-- Drops and forgets the map of a file. -/
def invalidate (c : Cache) (file : FileName) : Cache :=
  { c with resident := c.resident.erase file, remembered := c.remembered.erase file }

/-- Drops and forgets all maps. -/
def clear (c : Cache) : Cache := { c with resident := ∅, remembered := ∅, queue := .empty }

/-- Drops all resident maps and forgets those that nobody else keeps alive. -/
def relieve (c : Cache) (held : MapId → Bool) : Cache :=
  { c with resident := ∅, queue := .empty }.forgetDead held

end Cache

end MacroAtlas
