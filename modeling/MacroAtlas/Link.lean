import MacroAtlas.Span

/-!
# Links between two texts

A `Link` says which part of an expansion (the target) was produced from which part of the call (the
source). A literal link is a verbatim copy; any other was synthesized. A list of links is *sound*
when it could be the content of a map.
-/

namespace MacroAtlas

/-- A span of expansion text with the span of call text that it was produced from. -/
structure Link where
  /-- The span of the expansion. -/
  target : Span
  /-- The span of the call. -/
  source : Span
  /-- The target is a verbatim copy of the source. -/
  literal : Bool
  deriving DecidableEq, Repr

/-- Why links do not form a map. -/
inductive LinkFault where
  /-- A target or a source has its bounds in the wrong order. -/
  | inverted (bounds : InvertedBounds)
  /-- A target at this offset is empty. -/
  | emptyTarget (offset : UInt32)
  /-- The literal link at this target copies nothing. -/
  | emptyLiteralSource (target : Span)
  /-- A target starts before the one in front of it ends. -/
  | overlappingTargets (previous next : Span)
  deriving DecidableEq, Repr

/-- The report of a fault. -/
def LinkFault.message : LinkFault → String
  | .inverted bounds => bounds.message
  | .emptyTarget offset => s!"mapped target range at offset {offset} is empty"
  | .emptyLiteralSource target => s!"literal pair at {target.text} has an empty source range"
  | .overlappingTargets previous next =>
    s!"target ranges {previous.text} and {next.text} overlap"

namespace Link

/-- Links are ordered by their targets. -/
def le (a b : Link) : Bool := a.target.le b.target

/-- The first fault of a link that follows a link with target `previous`. -/
def fault? (previous : Option Span) (l : Link) : Option LinkFault :=
  if l.target.Inverted then some (.inverted ⟨l.target.start, l.target.stop⟩)
  else if l.source.Inverted then some (.inverted ⟨l.source.start, l.source.stop⟩)
  else if l.target.isEmpty then some (.emptyTarget l.target.start)
  else if l.literal && l.source.isEmpty then some (.emptyLiteralSource l.target)
  else match previous with
    | some p => if l.target.start < p.stop then some (.overlappingTargets p l.target) else none
    | none => none

end Link

/-- The first fault of a list of links that follows a link with target `previous`. -/
def firstFaultAfter? (previous : Option Span) : List Link → Option LinkFault
  | [] => none
  | l :: rest => (l.fault? previous).or (firstFaultAfter? (some l.target) rest)

/-- The first fault of a list of links, in list order. -/
def firstFault? (links : List Link) : Option LinkFault := firstFaultAfter? none links

end MacroAtlas
