/-!
# Spans of text

A `Span` is a half-open range of byte offsets. Offsets are 32-bit words, as in every stored record.
The two bounds may come in the wrong order: a query may be inverted, and a candidate link is checked
only when a map is built from it.
-/

namespace MacroAtlas

/-- A half-open range of byte offsets. -/
structure Span where
  /-- The offset of the first byte. -/
  start : UInt32
  /-- The offset just past the last byte. -/
  stop : UInt32
  deriving DecidableEq, Repr

/-- Two bounds that do not form a span, because the first lies after the second. -/
structure InvertedBounds where
  /-- The bound given as the start. -/
  start : UInt32
  /-- The bound given as the end. -/
  stop : UInt32
  deriving DecidableEq, Repr

namespace InvertedBounds

/-- What is reported where inverted bounds are an answer. -/
def message (b : InvertedBounds) : String :=
  s!"invalid range: start {b.start} is after end {b.stop}"

/-- What is reported where inverted bounds break the contract of the caller. -/
def abortMessage (b : InvertedBounds) : String :=
  s!"invalid text range {b.start}..{b.stop}"

end InvertedBounds

namespace Span

/-- The bounds of the span are in the wrong order. -/
def Inverted (s : Span) : Prop := s.stop < s.start

instance (s : Span) : Decidable s.Inverted := inferInstanceAs (Decidable (s.stop < s.start))

/-- The span between two bounds, refused when they are in the wrong order. -/
def ofBounds (start stop : UInt32) : Except InvertedBounds Span :=
  if stop < start then .error ⟨start, stop⟩ else .ok ⟨start, stop⟩

/-- The span of a given length, or `none` when its end is no 32-bit offset. -/
def ofLength? (start length : UInt32) : Option Span :=
  if start.toNat + length.toNat < UInt32.size then some ⟨start, start + length⟩ else none

/-- The empty span at an offset. -/
def caret (offset : UInt32) : Span := ⟨offset, offset⟩

/-- The number of bytes between the bounds. -/
def length (s : Span) : UInt32 := s.stop - s.start

/-- The bounds are equal. -/
def isEmpty (s : Span) : Bool := s.start == s.stop

/-- The offset lies in the half-open range. -/
def contains (s : Span) (offset : UInt32) : Bool := s.start ≤ offset && offset < s.stop

/-- Both bounds of `inner` lie between the bounds of the span. -/
def covers (s inner : Span) : Bool := s.start ≤ inner.start && inner.stop ≤ s.stop

/-- The common part of two spans, or `none` when it is empty. -/
def intersect? (s t : Span) : Option Span :=
  let start := max s.start t.start
  let stop := min s.stop t.stop
  if start < stop then some ⟨start, stop⟩ else none

/-- Spans are ordered by their start, then by their end. -/
def cmp (s t : Span) : Ordering := (compare s.start t.start).then (compare s.stop t.stop)

/-- The order of `Span.cmp` as a test. -/
def le (s t : Span) : Bool := (s.cmp t).isLE

/-- The span as it stands in reports: `[2, 5)`. -/
def text (s : Span) : String := s!"[{s.start}, {s.stop})"

/-- The bare bounds of the span: `2..5`. -/
def dotted (s : Span) : String := s!"{s.start}..{s.stop}"

end Span

end MacroAtlas
