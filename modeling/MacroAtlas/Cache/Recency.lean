import MacroAtlas.FileName

/-!
# The order of uses

A `Recency` lists uses of files in the order in which they were recorded. Recording one more takes
the same time however many there are, because the list is kept with the latest use in front and
beside its length.
-/

namespace MacroAtlas

/-- A use of a file. -/
structure Use where
  /-- The file. -/
  file : FileName
  /-- The stamp of the use. -/
  stamp : Nat
  deriving DecidableEq

/-- Uses of files in the order in which they were recorded. -/
structure Recency where
  /-- The uses, latest first. -/
  latestFirst : List Use
  /-- The number of uses. -/
  size : Nat
  /-- The number is that of the uses in the list. -/
  size_eq : size = latestFirst.length

namespace Recency

/-- The uses, oldest first. -/
def toList (r : Recency) : List Use := r.latestFirst.reverse

/-- Uses that are given oldest first. -/
def ofList (uses : List Use) : Recency := ⟨uses.reverse, uses.length, by simp⟩

/-- No uses. -/
def empty : Recency := ofList []

/-- Records a use as the latest. -/
def push (r : Recency) (use : Use) : Recency :=
  ⟨use :: r.latestFirst, r.size + 1, by simp [r.size_eq]⟩

/-- A queue that was made from a list has its uses. -/
@[simp] theorem toList_ofList (uses : List Use) : (ofList uses).toList = uses := by
  simp [ofList, toList]

@[simp] theorem ofList_toList (r : Recency) : ofList r.toList = r := by
  obtain ⟨latestFirst, size, rfl⟩ := r
  simp [ofList, toList]

@[simp] theorem toList_empty : empty.toList = [] := rfl

/-- A new use comes behind the others. -/
@[simp] theorem toList_push (r : Recency) (use : Use) :
    (r.push use).toList = r.toList ++ [use] := by
  simp [push, toList]

/-- The size of the queue is the number of its uses. -/
theorem size_eq_length_toList (r : Recency) : r.size = r.toList.length := by
  simp [toList, r.size_eq]

end Recency

end MacroAtlas
