import Choropleth.Clustering.Spread

/-!
# The grid of least costs

Row `c` and column `i` of the grid hold the least total spread of the values up to place `i` when
they are cut into `c + 1` runs, and the place where the last of these runs begins. A row is filled
from the row above it by halving: the middle column first, whose beginning then bounds the
beginnings on both sides.

* `GridRow`: the costs and beginnings of a row;
* `scan?`: looks for the best beginning between two bounds, from both of them at once;
* `fillSpan?`, `gridRows?`: fill a row and the grid.

Each function has no value where a place lies outside a row or a difference falls below zero.
-/

namespace Choropleth

/-- The costs of a row and the places where the last runs begin. -/
structure GridRow (α : Type) where
  costs : Array α
  starts : Array Nat

namespace GridRow

variable {α : Type}

/-- Sets the cost and the beginning at a place of the row. -/
def set? (row : GridRow α) (i : Nat) (cost : α) (start : Nat) : Option (GridRow α) :=
  if i < row.costs.size ∧ i < row.starts.size then
    some ⟨row.costs.setIfInBounds i cost, row.starts.setIfInBounds i start⟩
  else none

variable [Scalar α]

/-- A row that has not been filled. -/
def blank (n : Nat) : GridRow α := ⟨Array.replicate n (Scalar.ofNat 0), Array.replicate n 0⟩

end GridRow

namespace Grid

variable {α : Type} [Scalar α]

open Scalar

/-- The first row: a single run up to every place. -/
def firstRow? (sums : Sums α) (n : Nat) : Option (GridRow α) := do
  let costs ← (List.range n).mapM fun i => sums.spread? 0 i
  pure ⟨costs.toArray, Array.replicate n 0⟩

/-- The better of two candidates: the new one only if it costs less. -/
def better (best : α × Nat) (cost : α) (start : Nat) : α × Nat :=
  if less cost best.1 then (cost, start) else best

/-- Looks for the best beginning of a run that ends at `i`, from `low` and from `high` inwards. The
search ends early once the run from `high` with the cost before `low` is no better than the best
found, since costs and spreads only grow from there. -/
def scan? (sums : Sums α) (above : GridRow α) (i low high : Nat) (best : α × Nat) :
    Option (α × Nat) :=
  if high < low then some best
  else do
    let spreadHigh ← sums.spread? high i
    let beforeLow ← minus? low 1
    let costLow ← above.costs[beforeLow]?
    if atLeast (add spreadHigh costLow) best.1 then pure best
    else
      let spreadLow ← sums.spread? low i
      let best := better best (add spreadLow costLow) low
      if high = 0 then none
      else
        let costHigh ← above.costs[high - 1]?
        let best := better best (add spreadHigh costHigh) high
        scan? sums above i (low + 1) (high - 1) best
termination_by high + 1 - low

/-- Fills the columns from `first` to `last` of row `c`. -/
def fillSpan? (sums : Sums α) (above : GridRow α) (c first last : Nat) (row : GridRow α) :
    Option (GridRow α) :=
  if last < first then some row
  else
    let i := first + (last - first) / 2
    if i = 0 then none
    else do
      let cost ← above.costs[i - 1]?
      let fromLeft ← if c < first then row.starts[first - 1]? else some c
      let fromAbove ← above.starts[i]?
      let low := max (max c fromLeft) fromAbove
      let edge ← minus? above.costs.size 1
      let fromRight ← if last < edge then row.starts[last + 1]? else some (i - 1)
      let high := min (i - 1) fromRight
      let (cost, start) ← scan? sums above i low high (cost, i)
      let row ← row.set? i cost start
      let row ← if first < i then fillSpan? sums above c first (i - 1) row else some row
      fillSpan? sums above c (i + 1) last row
termination_by last + 1 - first

/-- The rows from row `c` on, `remaining` of them. The last row of the grid is filled in its last
column only. -/
def laterRows? (sums : Sums α) (n k : Nat) (above : GridRow α) (c : Nat) :
    Nat → Option (List (GridRow α))
  | 0 => some []
  | remaining + 1 => do
    let edge ← minus? n 1
    let row ← fillSpan? sums above c (if c + 1 < k then c else edge) edge (GridRow.blank n)
    let rows ← laterRows? sums n k row (c + 1) remaining
    pure (row :: rows)

/-- The grid for cutting sorted values into up to `k` runs, row by row. -/
def rows? (sorted : List α) (k : Nat) : Option (List (GridRow α)) := do
  let sums ← Sums.ofSorted? sorted
  let first ← firstRow? sums sorted.length
  let later ← laterRows? sums sorted.length k first 1 (k - 1)
  pure (first :: later)

end Grid
end Choropleth
