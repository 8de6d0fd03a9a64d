import MacroAtlas.Link

/-!
# Projection through one link

A link that the query covers gives its whole counterpart. A literal link that the query cuts gives a
slice in proportion, its start rounded down and its end up. An empty query is a caret, which passes
only through literal links around it. Products are formed in 64 bits and never wrap.
-/

namespace MacroAtlas

/-- An offset of `origin`, carried over to `image` in proportion and rounded down. -/
def projectDown (origin image : Span) (offset : UInt32) : UInt32 :=
  if origin.length = image.length then image.start + (offset - origin.start)
  else if origin.isEmpty then image.start
  else
    let product := (offset - origin.start).toUInt64 * image.length.toUInt64
    image.start + (product / origin.length.toUInt64).toUInt32

/-- The least multiple count of `divisor` that reaches `n`. -/
def divideUp (n divisor : UInt64) : UInt64 :=
  let quotient := n / divisor
  if n % divisor = 0 then quotient else quotient + 1

/-- An end offset of `origin`, carried over to `image` in proportion and rounded up. -/
def projectUp (origin image : Span) (offset : UInt32) : UInt32 :=
  if origin.length = image.length then image.start + (offset - origin.start)
  else if origin.isEmpty then image.stop
  else
    let product := (offset - origin.start).toUInt64 * image.length.toUInt64
    image.start + (divideUp product origin.length.toUInt64).toUInt32

/-- What a link from `origin` to `image` answers to a query that is not a caret. -/
def clip (origin image : Span) (literal : Bool) (query : Span) : Option Span :=
  if query.covers origin then some image
  else match origin.intersect? query with
    | some overlap =>
      if literal then
        some ⟨projectDown origin image overlap.start, projectUp origin image overlap.stop⟩
      else none
    | none => none

/-- What a link from `origin` to `image` answers to a query. -/
def project (origin image : Span) (literal : Bool) (query : Span) : Option Span :=
  if query.isEmpty then
    if literal && origin.contains query.start then
      some (.caret (projectDown origin image query.start))
    else none
  else clip origin image literal query

namespace Link

/-- The part of the source that the link answers to a query in the expansion. -/
def toSource (l : Link) (query : Span) : Option Span := project l.target l.source l.literal query

/-- The part of the target that the link answers to a query in the call. -/
def toTarget (l : Link) (query : Span) : Option Span := project l.source l.target l.literal query

end Link

end MacroAtlas
