import MacroAtlas.Search
import MacroAtlas.SpanMap.Basic
import MacroAtlas.SpanMap.Projection

/-!
# Queries of a span map

The queries look only at links that can answer, up to a cut in the order of targets or of source
starts. `scanToSource` and `scanToTarget` ask every link in turn and are what the queries amount to.
-/

namespace MacroAtlas.SpanMap

/-- The link at a position of the source index. -/
def linkAt? (m : SpanMap) (position : UInt32) : Option Link := m.links[position.toNat]?

/-- The spans of the call that a span of the expansion came from, in target order. -/
def toSource (m : SpanMap) (query : Span) : List Span :=
  let first := partitionPoint m.links fun l => l.target.stop ≤ query.start
  if query.isEmpty then
    (m.links[first]?.bind (·.toSource query)).toList
  else
    let reachable := (m.links.extract first m.links.size).toList
    (reachable.takeWhile fun l => l.target.start < query.stop).filterMap (·.toSource query)

/-- The spans of the expansion that a span of the call went to, in target order. -/
def toTarget (m : SpanMap) (query : Span) : List Span :=
  let startsInTime (position : UInt32) : Bool :=
    match m.linkAt? position with
    | some l => l.source.start ≤ query.stop
    | none => false
  let reachable := m.bySource.extract 0 (partitionPoint m.bySource startsInTime)
  let answers := reachable.toList.filterMap fun position =>
    (m.linkAt? position).bind (·.toTarget query)
  answers.mergeSort Span.le

/-- The offset of the call that an offset of the expansion was copied from. -/
def offsetToSource? (m : SpanMap) (offset : UInt32) : Option UInt32 :=
  (m.toSource (.caret offset)).head?.map (·.start)

/-- The offsets of the expansion that an offset of the call was copied to. -/
def offsetToTarget (m : SpanMap) (offset : UInt32) : List UInt32 :=
  (m.toTarget (.caret offset)).map (·.start)

/-- The answers of all links to a query in the expansion, in target order. -/
def scanToSource (m : SpanMap) (query : Span) : List Span :=
  m.links.toList.filterMap (·.toSource query)

/-- The answers of all links to a query in the call, in target order. -/
def scanToTarget (m : SpanMap) (query : Span) : List Span :=
  m.links.toList.filterMap (·.toTarget query)

end MacroAtlas.SpanMap
