import MacroAtlas.SpanMap.Basic
import Std.Data.ExtTreeMap

/-!
# Maps in the hands of callers

Maps are shared, not copied: a `SharedMap` has an identity beside its content, and two maps of equal
content may be different objects. Callers keep maps in named slots. A map lives as long as somebody
keeps it.
-/

namespace MacroAtlas

/-- The identity of a shared map. -/
abbrev MapId := Nat

/-- A map that several parties may keep. -/
structure SharedMap where
  /-- Tells the map apart from others with the same links. -/
  id : MapId
  /-- The content. -/
  map : SpanMap
  deriving DecidableEq

/-- The maps that callers keep, by slot. -/
structure Holders where
  /-- The map in each slot. -/
  slots : Std.ExtTreeMap String SharedMap compare

namespace Holders

/-- Callers that keep nothing. -/
def empty : Holders := ⟨∅⟩

/-- Some slot keeps the map. -/
def holds (h : Holders) (id : MapId) : Bool := h.slots.toList.any fun entry => entry.2.id == id

/-- The slots that keep the map, in the order of their names. -/
def slotsOf (h : Holders) (id : MapId) : List String :=
  (h.slots.toList.filter fun entry => entry.2.id == id).map (·.1)

/-- Puts a map into a slot, in the place of another. -/
def keep (h : Holders) (slot : String) (m : SharedMap) : Holders := ⟨h.slots.insert slot m⟩

/-- What a caller learns about a map that is handed over. -/
structure Receipt where
  /-- The content. -/
  map : SpanMap
  /-- The slots that kept this very map before. -/
  slots : List String
  deriving DecidableEq

/-- Hands a map over, into a slot if one is named. Where there is no map the slots stay as they
are. -/
def handOver (h : Holders) (m : Option SharedMap) (slot : Option String) :
    Option Receipt × Holders :=
  match m with
  | none => (none, h)
  | some m =>
    (some ⟨m.map, h.slotsOf m.id⟩, match slot with
      | some name => h.keep name m
      | none => h)

/-- Empties a slot; tells whether it kept a map. -/
def drop (h : Holders) (slot : String) : Bool × Holders :=
  (h.slots.contains slot, ⟨h.slots.erase slot⟩)

end Holders

end MacroAtlas
