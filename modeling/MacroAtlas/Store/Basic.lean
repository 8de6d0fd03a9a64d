import MacroAtlas.Access
import MacroAtlas.Blob.Basic

/-!
# The store of maps

A `Store` keeps the records of maps in a blob store, under one area. Writing without the exclusive
permit of its lock is refused, and a reader with a permit of another lock is stopped before anything
is looked at.
-/

namespace MacroAtlas

/-- Why an operation gave no answer. -/
inductive Failure where
  /-- The operation was refused or went wrong. -/
  | fault (fault : StoreFault)
  /-- A permit of another lock was used for reading, so the caller was stopped. -/
  | foreignPermit
  deriving DecidableEq

/-- Records of maps, guarded by a lock. -/
structure Store (σ : Type) where
  /-- Where the records are kept. -/
  blobs : σ
  /-- The lock that guards them. -/
  owner : LockId

namespace Store

/-- The area that records are kept under. -/
def area : String := "expanse.macro.range_map"

variable {σ : Type} [BlobStore σ]

/-- The permit is the exclusive one of the store's own lock. -/
def allowsWriting (s : Store σ) (permit : Permit) : Bool :=
  permit.lock = s.owner && permit.mode = .exclusive

/-- Keeps the record of a map under a file. -/
def write (s : Store σ) (permit : Permit) (file : FileName) (map : SpanMap) :
    Except StoreFault Unit × Store σ :=
  if s.allowsWriting permit then
    let (result, blobs) := BlobStore.write s.blobs area file (Record.encode map)
    (result, { s with blobs })
  else (.error (.writeDenied file), s)

/-- The map under a file, if there is a record of it. -/
def tryRead (s : Store σ) (permit : Permit) (file : FileName) :
    Except Failure (Option SpanMap) × Store σ :=
  if permit.lock ≠ s.owner then (.error .foreignPermit, s)
  else match BlobStore.read s.blobs area file with
    | (.error fault, blobs) => (.error (.fault fault), { s with blobs })
    | (.ok none, blobs) => (.ok none, { s with blobs })
    | (.ok (some bytes), blobs) =>
      match Record.decode bytes with
      | .ok map => (.ok (some map), { s with blobs })
      | .error fault => (.error (.fault (.record file fault)), { s with blobs })

/-- The map under a file; whatever is wrong with its record, there is none. -/
def read (s : Store σ) (permit : Permit) (file : FileName) :
    Except Failure (Option SpanMap) × Store σ :=
  match s.tryRead permit file with
  | (.error (.fault _), s) => (.ok none, s)
  | result => result

/-- Removes the record under a file; tells whether there was one. -/
def remove (s : Store σ) (permit : Permit) (file : FileName) : Except StoreFault Bool × Store σ :=
  if s.allowsWriting permit then
    let (result, blobs) := BlobStore.remove s.blobs area file
    (result, { s with blobs })
  else (.error (.writeDenied file), s)

/-- The files that have a record, in the order of their names. -/
def files (s : Store σ) (permit : Permit) : Except Failure (List FileName) :=
  if permit.lock ≠ s.owner then .error .foreignPermit
  else (BlobStore.files s.blobs area).mapError .fault

end Store

end MacroAtlas
