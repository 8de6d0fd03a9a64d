import MacroAtlas.Payload.Fault

/-!
# Span maps

A `SpanMap` holds the links of one expansion in target order, with a second index in source order. A
map exists only for a sound list of links, and its index is the one that the links determine.
-/

namespace MacroAtlas

/-- The positions of the links in the order of their source starts; equal starts keep list order. -/
def sourceOrder (links : Array Link) : Array UInt32 :=
  (links.toList.zipIdx.mergeSort fun a b => a.1.source.start ≤ b.1.source.start).toArray.map
    fun entry => entry.2.toUInt32

/-- The links of one expansion, in target order and indexed by source. -/
structure SpanMap where
  /-- The links, in the order of their targets. -/
  links : Array Link
  /-- The positions of the links, in the order of their source starts. -/
  bySource : Array UInt32
  /-- The links can stand together in this order. -/
  sound : firstFault? links.toList = none
  /-- The source index belongs to these links. -/
  indexed : bySource = sourceOrder links

namespace SpanMap

/-- Maps with the same links are equal. -/
theorem ext_links {m n : SpanMap} (h : m.links = n.links) : m = n := by
  obtain ⟨_, _, _, hm⟩ := m
  obtain ⟨_, _, _, hn⟩ := n
  subst h hm hn
  rfl

theorem eq_iff_links_eq {m n : SpanMap} : m = n ↔ m.links = n.links :=
  ⟨fun h => h ▸ rfl, ext_links⟩

instance : DecidableEq SpanMap := fun _ _ => decidable_of_iff _ eq_iff_links_eq.symm

/-- The map without links. -/
def empty : SpanMap := ⟨#[], sourceOrder #[], rfl, rfl⟩

instance : Inhabited SpanMap := ⟨empty⟩

/-- The number of links. -/
def size (m : SpanMap) : Nat := m.links.size

/-- The map has no links. -/
def isEmpty (m : SpanMap) : Bool := m.links.isEmpty

/-- The map of links that stand in target order already; links out of order are an overlap. -/
def ofOrdered (links : List Link) : Except MapFault SpanMap :=
  match h : firstFault? links with
  | some fault => .error (.unsound fault)
  | none => .ok ⟨links.toArray, sourceOrder links.toArray, h, rfl⟩

/-- The map of links given in any order. -/
def ofLinks (links : List Link) : Except MapFault SpanMap :=
  ofOrdered (links.mergeSort Link.le)

end SpanMap

end MacroAtlas
