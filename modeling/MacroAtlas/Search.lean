/-!
# Search by halving

`partitionPoint xs p` finds where an array stops satisfying `p`. It is meant for arrays on which `p`
holds for a leading part and fails for the rest, and looks at logarithmically many elements.
-/

namespace MacroAtlas

/-- The number of leading elements that satisfy `p`, when no later element does. -/
def partitionPoint {α : Type} (xs : Array α) (p : α → Bool) : Nat :=
  go 0 xs.size (Nat.le_refl _)
where
  /-- Narrows the candidates: all elements before `lo` satisfy `p`, none from `hi` on does. -/
  go (lo hi : Nat) (bound : hi ≤ xs.size) : Nat :=
    if gap : lo < hi then
      let mid := lo + (hi - lo) / 2
      have inside : mid < xs.size := by omega
      if p xs[mid] then go (mid + 1) hi bound else go lo mid (by omega)
    else lo
  termination_by hi - lo
  decreasing_by all_goals omega

end MacroAtlas
