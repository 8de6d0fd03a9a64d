import MacroAtlas.Archive.CallSites
import MacroAtlas.Cache.Basic
import MacroAtlas.Store.Basic

/-!
# The archive of expansions

An `Archive` puts a cache in front of a store and keeps the table of call sites beside them.
Operations take a permit and, because a map that a caller keeps alive can be adopted again, what
callers hold. One that fails half way leaves what it did before.
-/

namespace MacroAtlas

/-- An expansion as it comes from the macro engine. -/
structure Expansion where
  /-- The digest of the call. -/
  call : Digest
  /-- The digest of the macro definition. -/
  definition : Digest
  /-- The text that the call expands to. -/
  text : String
  /-- How the text hangs together with the call, in any order. -/
  links : List Link
  deriving DecidableEq

/-- The fingerprint of an expansion. -/
def Expansion.fingerprint (e : Expansion) : Fingerprint := .ofDigests e.call e.definition

/-- How a stored record fares. -/
inductive RecordStatus where
  /-- It holds a map with this many links. -/
  | valid (links : Nat)
  /-- It was written under another version. -/
  | outdated (version : Nat)
  /-- It is damaged, as this fault says. -/
  | corrupt (fault : StoreFault)
  deriving DecidableEq

/-- A stored record in a survey. -/
structure RecordSummary where
  /-- The file of the record. -/
  file : FileName
  /-- The fingerprint that the file carries, if any. -/
  fingerprint : Option Fingerprint
  /-- How the record fares. -/
  status : RecordStatus
  deriving DecidableEq

/-- The summary of the record in a file. -/
def RecordSummary.ofFile (file : FileName) (status : RecordStatus) : RecordSummary :=
  ⟨file, file.fingerprint?, status⟩

/-- A store of maps with a cache in front of it and the call sites that use it. -/
structure Archive (σ : Type) where
  /-- The store. -/
  store : Store σ
  /-- The cache. -/
  cache : Cache
  /-- The call sites. -/
  sites : CallSites
  /-- The identity of the next map that comes to life. -/
  nextMap : MapId

namespace Archive

variable {σ : Type} [BlobStore σ]

/-- An archive over some blobs, with nothing cached and no call site known. -/
def ofBlobs (blobs : σ) (owner : LockId) (capacity : Nat) : Archive σ where
  store := ⟨blobs, owner⟩
  cache := .ofCapacity capacity
  sites := .empty
  nextMap := 0

/-- A new archive over the blobs of another; the maps of both have different identities. -/
def reopen (a : Archive σ) (capacity : Nat) : Archive σ :=
  { ofBlobs a.store.blobs a.store.owner capacity with nextMap := a.nextMap }

/-- A permit of the archive's own lock. -/
def permit (a : Archive σ) (mode : AccessMode) : Permit := ⟨a.store.owner, mode⟩

omit [BlobStore σ] in
/-- The own writer may write. -/
@[simp] theorem allowsWriting_own (a : Archive σ) :
    a.store.allowsWriting (a.permit .exclusive) = true := by
  simp [Store.allowsWriting, permit]

/-- The map of a file, from the cache or from the store. Without a usable record there is none. -/
def get (a : Archive σ) (held : MapId → Bool) (permit : Permit) (file : FileName) :
    Except Failure (Option SharedMap) × Archive σ :=
  match a.cache.get held file with
  | (some m, cache) => (.ok (some m), { a with cache })
  | (none, cache) =>
    let missed := { a with cache := cache.countMiss }
    match missed.store.read permit file with
    | (.error failure, store) => (.error failure, { missed with store })
    | (.ok none, store) => (.ok none, { missed with store })
    | (.ok (some map), store) =>
      let m : SharedMap := ⟨missed.nextMap, map⟩
      (.ok (some m), { missed with
        store
        cache := missed.cache.enter held file m
        nextMap := missed.nextMap + 1 })

/-- Stores a map under a file and caches it. -/
def put (a : Archive σ) (held : MapId → Bool) (permit : Permit) (file : FileName) (map : SpanMap) :
    Except StoreFault SharedMap × Archive σ :=
  match a.store.write permit file map with
  | (.error fault, store) => (.error fault, { a with store })
  | (.ok _, store) =>
    let m : SharedMap := ⟨a.nextMap, map⟩
    (.ok m, { a with
      store
      cache := a.cache.enter held file m
      nextMap := a.nextMap + 1 })

/-- Drops a file from the cache. -/
def invalidate (a : Archive σ) (file : FileName) : Archive σ :=
  { a with cache := a.cache.invalidate file }

/-- Drops everything from the cache. -/
def invalidateAll (a : Archive σ) : Archive σ := { a with cache := a.cache.clear }

/-- Drops the maps that only the cache keeps alive. -/
def relieve (a : Archive σ) (held : MapId → Bool) : Archive σ :=
  { a with cache := a.cache.relieve held }

/-- How a call site stands, given the fingerprint of its call now. -/
def state (a : Archive σ) (site : CallSite) (current : Fingerprint) : SiteState :=
  a.sites.state site current

/-- Changes the table of call sites on behalf of one of them. -/
def changeSites (a : Archive σ) (permit : Permit) (site : CallSite)
    (change : CallSites → CallSites) : Except StoreFault Unit × Archive σ :=
  if a.store.allowsWriting permit then (.ok (), { a with sites := change a.sites })
  else (.error (.stateChangeDenied site), a)

/-- An expansion of a call site is under way. -/
def start (a : Archive σ) (permit : Permit) (site : CallSite) :
    Except StoreFault Unit × Archive σ :=
  a.changeSites permit site (·.start site)

/-- The expansion of a call site that is under way, if any, is given up. -/
def giveUp (a : Archive σ) (permit : Permit) (site : CallSite) :
    Except StoreFault Unit × Archive σ :=
  a.changeSites permit site (·.giveUp site)

/-- The map of an expansion whose links lie in its text. -/
def mapOf (site : CallSite) (e : Expansion) : Except StoreFault SpanMap :=
  match e.links.find? fun l => e.text.utf8ByteSize < l.target.stop.toNat with
  | some outside => .error (.outsideExpansion site outside.target e.text.utf8ByteSize)
  | none => mapOfLinks e.links

/-- Stores the expansion of a call site under its canonical name and drops an earlier map of the
site from the cache. -/
def record (a : Archive σ) (held : MapId → Bool) (permit : Permit) (site : CallSite)
    (e : Expansion) : Except StoreFault FileName × Archive σ :=
  if a.store.allowsWriting permit then
    match mapOf site e with
    | .error fault => (.error fault, a)
    | .ok map =>
      let file := FileName.ofFingerprint e.fingerprint
      match a.put held permit file map with
      | (.error fault, a) => (.error fault, a)
      | (.ok _, a) =>
        let finished := { a with sites := a.sites.finish site file }
        match a.sites.last? site with
        | some earlier =>
          (.ok file, if earlier = file then finished else finished.invalidate earlier)
        | none => (.ok file, finished)
  else (.error (.stateChangeDenied site), a)

/-- The map of a call site, if its call is as it was when it was expanded. -/
def mapForCall (a : Archive σ) (held : MapId → Bool) (permit : Permit) (site : CallSite)
    (current : Fingerprint) : Except Failure (Option SharedMap) × Archive σ :=
  match a.state site current with
  | .expanding | .stale _ => (.ok none, a)
  | .unexpanded | .expanded _ => a.get held permit (.ofFingerprint current)

/-- How the records of the given files fare; a file without a record is passed over. -/
def summarize (a : Archive σ) (permit : Permit) :
    List FileName → Except Failure (List RecordSummary) × Archive σ
  | [] => (.ok [], a)
  | file :: rest =>
    let (result, store) := a.store.tryRead permit file
    let read := { a with store }
    let status? : Except Failure (Option RecordStatus) := match result with
      | .ok (some map) => .ok (some (.valid map.size))
      | .ok none => .ok none
      | .error (.fault (.record _ (.outdated version))) => .ok (some (.outdated version))
      | .error (.fault (.record file fault)) => .ok (some (.corrupt (.record file fault)))
      | .error failure => .error failure
    match status? with
    | .error failure => (.error failure, read)
    | .ok status =>
      match read.summarize permit rest with
      | (.error failure, a) => (.error failure, a)
      | (.ok summaries, a) => (.ok ((status.map (.ofFile file)).toList ++ summaries), a)

/-- How all stored records fare, in the order of their files. -/
def records (a : Archive σ) (permit : Permit) :
    Except Failure (List RecordSummary) × Archive σ :=
  match a.store.files permit with
  | .error failure => (.error failure, a)
  | .ok files => a.summarize permit files

/-- Removes a record, drops its map and makes all call sites forget its file. -/
def removeRecord (a : Archive σ) (permit : Permit) (file : FileName) :
    Except StoreFault Bool × Archive σ :=
  let forgotten := { a.invalidate file with sites := a.sites.forget file }
  let (result, store) := forgotten.store.remove permit file
  (result, { forgotten with store })

/-- Removes the records of those of the given files that a test condemns, and counts what was
removed. -/
def sweep (a : Archive σ) (permit : Permit)
    (condemns : Archive σ → FileName → Except Failure Bool × Archive σ) :
    List FileName → Except Failure Nat × Archive σ
  | [] => (.ok 0, a)
  | file :: rest =>
    match condemns a file with
    | (.error failure, a) => (.error failure, a)
    | (.ok false, a) => a.sweep permit condemns rest
    | (.ok true, a) =>
      match a.removeRecord permit file with
      | (.error fault, a) => (.error (.fault fault), a)
      | (.ok removed, a) =>
        match a.sweep permit condemns rest with
        | (.error failure, a) => (.error failure, a)
        | (.ok count, a) => (.ok (count + removed.toNat), a)

/-- The file carries a fingerprint that is not among the given ones. -/
def isDead (live : List Fingerprint) (file : FileName) : Bool :=
  match file.fingerprint? with
  | some f => !live.contains f
  | none => false

/-- Removes the records whose fingerprint is not among the live ones; tells how many there were. -/
def collect (a : Archive σ) (permit : Permit) (live : List Fingerprint) :
    Except Failure Nat × Archive σ :=
  match a.store.files permit with
  | .error failure => (.error failure, a)
  | .ok files => a.sweep permit (fun a file => (.ok (isDead live file), a)) files

/-- The record of a file is out of date or damaged. -/
def isBroken (permit : Permit) (a : Archive σ) (file : FileName) :
    Except Failure Bool × Archive σ :=
  let (result, store) := a.store.tryRead permit file
  let answer := match result with
    | .ok _ => .ok false
    | .error (.fault fault) => if fault.recoverable then .ok true else .error (.fault fault)
    | .error failure => .error failure
  (answer, { a with store })

/-- Removes the records that are out of date or damaged; tells how many there were. -/
def purge (a : Archive σ) (permit : Permit) : Except Failure Nat × Archive σ :=
  match a.store.files permit with
  | .error failure => (.error failure, a)
  | .ok files => a.sweep permit (isBroken permit) files

end Archive

end MacroAtlas
