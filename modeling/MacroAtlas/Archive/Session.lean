import MacroAtlas.Archive.Basic
import MacroAtlas.Cache.Session

/-!
# Sessions with an archive

Callers use one archive step by step and keep some of the maps they get. A step may also go straight
to the store or the blobs below, or open the archive anew. A step that fails the check of its names
and links changes nothing.
-/

namespace MacroAtlas

/-- A step of a session with an archive, over files of type `φ` and maps of type `μ`. -/
inductive ArchiveStep (φ μ : Type) where
  /-- Looks a file up. -/
  | get (permit : Permit) (file : φ) (hold : Option String)
  /-- Looks the map of a call site up. -/
  | mapForCall (permit : Permit) (site : CallSite) (current : Fingerprint) (hold : Option String)
  /-- Asks how a call site stands. -/
  | state (site : CallSite) (current : Fingerprint)
  /-- Surveys the stored records. -/
  | records (permit : Permit)
  /-- Reads a record past the cache. -/
  | tryReadStore (permit : Permit) (file : φ)
  /-- Reads a record past the cache; a broken one counts as missing. -/
  | readStore (permit : Permit) (file : φ)
  /-- Lists the files with a record. -/
  | storeFiles (permit : Permit)
  /-- Stores a map. -/
  | put (permit : Permit) (file : φ) (map : μ) (hold : Option String)
  /-- Starts an expansion. -/
  | start (permit : Permit) (site : CallSite)
  /-- Gives an expansion up. -/
  | giveUp (permit : Permit) (site : CallSite)
  /-- Records a finished expansion. -/
  | record (permit : Permit) (site : CallSite) (expansion : Expansion)
  /-- Removes the records that are not live. -/
  | collect (permit : Permit) (live : List Fingerprint)
  /-- Removes the broken records. -/
  | purge (permit : Permit)
  /-- Writes a record past the cache. -/
  | writeStore (permit : Permit) (file : φ) (map : μ)
  /-- Removes a record past the cache and the call sites. -/
  | removeStore (permit : Permit) (file : φ)
  /-- Drops a file from the cache. -/
  | invalidate (file : φ)
  /-- Drops everything from the cache. -/
  | invalidateAll
  /-- Drops the maps that only the cache keeps alive. -/
  | relieve
  /-- Writes a blob past the store. -/
  | writeBlob (area : String) (file : φ) (bytes : Bytes)
  /-- Reads a blob past the store. -/
  | readBlob (file : φ)
  /-- Empties a slot. -/
  | drop (slot : String)
  /-- Opens a new archive over the same blobs. -/
  | reopen
  deriving DecidableEq

/-- What a caller learns from a step. -/
inductive ArchiveAnswer where
  /-- The map asked for. -/
  | map (receipt : Option Holders.Receipt)
  /-- How a call site stands. -/
  | state (state : SiteState)
  /-- How the records fare. -/
  | records (summaries : List RecordSummary)
  /-- The map in the store. -/
  | stored (map : Option SpanMap)
  /-- The files with a record. -/
  | files (files : List FileName)
  /-- The file of an expansion. -/
  | file (file : FileName)
  /-- The number of records removed. -/
  | count (removed : Nat)
  /-- The bytes of a blob. -/
  | blob (bytes : Option Bytes)
  /-- Whether the step found what it was about. -/
  | told (found : Bool)
  /-- The change was made. -/
  | accepted
  /-- Nothing. -/
  | done
  deriving DecidableEq

/-- Checks a step: the file first, then its map. -/
def ArchiveStep.check :
    ArchiveStep String (List Link) → Except StoreFault (ArchiveStep FileName SpanMap)
  | .get permit name hold => do return .get permit (← FileName.ofText name) hold
  | .mapForCall permit site current hold => .ok (.mapForCall permit site current hold)
  | .state site current => .ok (.state site current)
  | .records permit => .ok (.records permit)
  | .tryReadStore permit name => do return .tryReadStore permit (← FileName.ofText name)
  | .readStore permit name => do return .readStore permit (← FileName.ofText name)
  | .storeFiles permit => .ok (.storeFiles permit)
  | .put permit name links hold => do
    let file ← FileName.ofText name
    return .put permit file (← mapOfLinks links) hold
  | .start permit site => .ok (.start permit site)
  | .giveUp permit site => .ok (.giveUp permit site)
  | .record permit site expansion => .ok (.record permit site expansion)
  | .collect permit live => .ok (.collect permit live)
  | .purge permit => .ok (.purge permit)
  | .writeStore permit name links => do
    let file ← FileName.ofText name
    return .writeStore permit file (← mapOfLinks links)
  | .removeStore permit name => do return .removeStore permit (← FileName.ofText name)
  | .invalidate name => do return .invalidate (← FileName.ofText name)
  | .invalidateAll => .ok .invalidateAll
  | .relieve => .ok .relieve
  | .writeBlob area name bytes => do return .writeBlob area (← FileName.ofText name) bytes
  | .readBlob name => do return .readBlob (← FileName.ofText name)
  | .drop slot => .ok (.drop slot)
  | .reopen => .ok .reopen

/-- An archive and what its callers keep. -/
structure ArchiveSession (σ : Type) where
  /-- The archive. -/
  archive : Archive σ
  /-- The maps that callers keep. -/
  holders : Holders
  /-- The capacity of the cache. -/
  capacity : Nat

namespace ArchiveSession

variable {σ : Type} [BlobStore σ]

/-- The lock of an archive in a session. -/
def ownLock : LockId := 0

/-- A session with an archive over some blobs. -/
def ofBlobs (blobs : σ) (capacity : Nat) : ArchiveSession σ :=
  ⟨.ofBlobs blobs ownLock capacity, .empty, capacity⟩

/-- A caller keeps the map. -/
def held (s : ArchiveSession σ) : MapId → Bool := s.holders.holds

/-- The session after the archive changed. -/
def settle {α : Type} (s : ArchiveSession σ) (answer : α → ArchiveAnswer) :
    Except Failure α × Archive σ → Except Failure ArchiveAnswer × ArchiveSession σ
  | (result, archive) => (result.map answer, { s with archive })

/-- The session after the archive changed or refused to. -/
def settleFault {α : Type} (s : ArchiveSession σ) (answer : α → ArchiveAnswer) :
    Except StoreFault α × Archive σ → Except Failure ArchiveAnswer × ArchiveSession σ
  | (result, archive) => s.settle answer (result.mapError .fault, archive)

/-- The session after a look-up, whose map is handed over. -/
def settleMap (s : ArchiveSession σ) (hold : Option String) :
    Except Failure (Option SharedMap) × Archive σ → Except Failure ArchiveAnswer × ArchiveSession σ
  | (.error failure, archive) => (.error failure, { s with archive })
  | (.ok m, archive) =>
    let (receipt, holders) := s.holders.handOver m hold
    (.ok (.map receipt), { s with archive, holders })

/-- The archive after its store changed. -/
def withStore {α : Type} (s : ArchiveSession σ) : α × Store σ → α × Archive σ
  | (result, store) => (result, { s.archive with store })

/-- The archive after its blobs changed. -/
def withBlobs {α : Type} (s : ArchiveSession σ) : α × σ → α × Archive σ
  | (result, blobs) => s.withStore (result, { s.archive.store with blobs })

/-- Takes a checked step. -/
def step (s : ArchiveSession σ) :
    ArchiveStep FileName SpanMap → Except Failure ArchiveAnswer × ArchiveSession σ
  | .get permit file hold => s.settleMap hold (s.archive.get s.held permit file)
  | .mapForCall permit site current hold =>
    s.settleMap hold (s.archive.mapForCall s.held permit site current)
  | .state site current => (.ok (.state (s.archive.state site current)), s)
  | .records permit => s.settle .records (s.archive.records permit)
  | .tryReadStore permit file =>
    s.settle .stored (s.withStore (s.archive.store.tryRead permit file))
  | .readStore permit file => s.settle .stored (s.withStore (s.archive.store.read permit file))
  | .storeFiles permit => ((s.archive.store.files permit).map .files, s)
  | .put permit file map hold =>
    let (result, archive) := s.archive.put s.held permit file map
    s.settleMap hold ((result.mapError .fault).map some, archive)
  | .start permit site => s.settleFault (fun _ => .accepted) (s.archive.start permit site)
  | .giveUp permit site => s.settleFault (fun _ => .accepted) (s.archive.giveUp permit site)
  | .record permit site e => s.settleFault .file (s.archive.record s.held permit site e)
  | .collect permit live => s.settle .count (s.archive.collect permit live)
  | .purge permit => s.settle .count (s.archive.purge permit)
  | .writeStore permit file map =>
    s.settleFault (fun _ => .accepted) (s.withStore (s.archive.store.write permit file map))
  | .removeStore permit file =>
    s.settleFault .told (s.withStore (s.archive.store.remove permit file))
  | .invalidate file => (.ok .done, { s with archive := s.archive.invalidate file })
  | .invalidateAll => (.ok .done, { s with archive := s.archive.invalidateAll })
  | .relieve => (.ok .done, { s with archive := s.archive.relieve s.held })
  | .writeBlob area file bytes =>
    s.settleFault (fun _ => .done)
      (s.withBlobs (BlobStore.write s.archive.store.blobs area file bytes))
  | .readBlob file =>
    s.settleFault .blob (s.withBlobs (BlobStore.read s.archive.store.blobs Store.area file))
  | .drop slot =>
    let (kept, holders) := s.holders.drop slot
    (.ok (.told kept), { s with holders })
  | .reopen => (.ok .done, { s with archive := s.archive.reopen s.capacity })

/-- Checks a step and takes it. -/
def attempt (s : ArchiveSession σ) (step : ArchiveStep String (List Link)) :
    Except Failure ArchiveAnswer × ArchiveSession σ :=
  match step.check with
  | .error fault => (.error (.fault fault), s)
  | .ok checked => s.step checked

end ArchiveSession

end MacroAtlas
