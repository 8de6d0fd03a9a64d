import Std.Data.ExtTreeMap

/-!
# Access permits

Each store has a lock that admits any number of readers or one writer. A permit carries the identity
of its lock, so one of another store is recognised. A `Desk` hands the permits of several locks to
named holders.
-/

namespace MacroAtlas

/-- The identity of a lock. -/
abbrev LockId := Nat

/-- What a permit allows. -/
inductive AccessMode where
  /-- Reading beside other readers. -/
  | shared
  /-- Reading and writing alone. -/
  | exclusive
  deriving DecidableEq, Repr

/-- A permit of some lock. -/
structure Permit where
  /-- The lock that granted the permit. -/
  lock : LockId
  /-- What the permit allows. -/
  mode : AccessMode
  deriving DecidableEq, Repr

/-- Who uses a lock. -/
inductive Occupancy where
  /-- This many readers. -/
  | readers (count : Nat)
  /-- One writer. -/
  | writer
  deriving DecidableEq, Repr

/-- A lock that admits any number of readers or one writer. -/
structure AccessLock where
  /-- The identity of the lock. -/
  id : LockId
  /-- Who uses the lock. -/
  occupancy : Occupancy
  deriving DecidableEq, Repr

namespace AccessLock

/-- The permit asked for and the lock afterwards, if the lock can grant it now. -/
def request? (lock : AccessLock) (mode : AccessMode) : Option (Permit × AccessLock) :=
  match mode, lock.occupancy with
  | .shared, .readers count =>
    some (⟨lock.id, .shared⟩, { lock with occupancy := .readers (count + 1) })
  | .exclusive, .readers 0 => some (⟨lock.id, .exclusive⟩, { lock with occupancy := .writer })
  | _, _ => none

/-- The lock after a permit is given back. -/
def release (lock : AccessLock) (mode : AccessMode) : AccessLock :=
  match mode, lock.occupancy with
  | .shared, .readers count => { lock with occupancy := .readers (count - 1) }
  | .exclusive, .writer => { lock with occupancy := .readers 0 }
  | _, _ => lock

end AccessLock

/-- Several locks and the permits that named holders keep. -/
structure Desk where
  /-- The locks, by position. -/
  locks : List AccessLock
  /-- The permits that are kept. -/
  kept : Std.ExtTreeMap String Permit compare

namespace Desk

/-- A desk with the given number of free locks, each with an identity of its own. -/
def ofCount (count : Nat) : Desk where
  locks := (List.range count).map fun i => ⟨i, .readers 0⟩
  kept := ∅

/-- Gives a permit back to its lock. -/
def giveBack (desk : Desk) (permit : Permit) : Desk :=
  { desk with locks := desk.locks.map fun lock =>
      if lock.id = permit.lock then lock.release permit.mode else lock }

/-- Asks the lock at a position for a permit, which is kept under the holder's name or given back at
once. -/
def ask (desk : Desk) (position : Nat) (mode : AccessMode) (holder : Option String) :
    Option Permit × Desk :=
  match desk.locks[position]?.bind (·.request? mode) with
  | none => (none, desk)
  | some (permit, lock) =>
    let granted := { desk with locks := desk.locks.set position lock }
    match holder with
    | none => (some permit, granted.giveBack permit)
    | some name =>
      let freed := match desk.kept[name]? with
        | some earlier => granted.giveBack earlier
        | none => granted
      (some permit, { freed with kept := freed.kept.insert name permit })

/-- Gives back the permit kept under a name; tells whether there was one. -/
def release (desk : Desk) (name : String) : Bool × Desk :=
  match desk.kept[name]? with
  | none => (false, desk)
  | some permit => (true, { desk.giveBack permit with kept := desk.kept.erase name })

/-- A writer takes the lock at a position and fails half way: its permit is given back. Tells
whether the lock could be taken. -/
def failWhileWriting (desk : Desk) (position : Nat) : Bool × Desk :=
  match desk.ask position .exclusive none with
  | (some _, after) => (true, after)
  | (none, _) => (false, desk)

/-- The positions of the locks with a given identity. -/
def positionsOf (desk : Desk) (id : LockId) : List Nat :=
  (desk.locks.zipIdx.filter fun entry => entry.1.id = id).map (·.2)

/-- For each permit that is kept, by holder's name, whether the lock at a position granted it. -/
def grantedBy (desk : Desk) (position : Nat) : List Bool :=
  desk.kept.toList.map fun entry => desk.locks[position]?.any fun lock => lock.id = entry.2.lock

/-- No two locks have the same identity. -/
def distinctIds (desk : Desk) : Bool := decide (desk.locks.map (·.id)).Nodup

end Desk

end MacroAtlas
