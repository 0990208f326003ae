import Choropleth.Clustering.Grid
import Choropleth.QueryError

/-!
# Natural classes

Values are divided into classes such that the total spread within the classes is least. The classes
are runs of the sorted values.

* `classes`: the classes of values;
* `upperBounds`: the greatest value of every class;
* `extremes?`: the least and the greatest value.
-/

namespace Choropleth

variable {α : Type} [Scalar α]

open Scalar

/-- The items at the places `i` to `j`; the run may be empty but not reach outside the list. -/
def run? (xs : List α) (i j : Nat) : Option (List α) :=
  if i ≤ j + 1 ∧ j < xs.length then some ((xs.take (j + 1)).drop i) else none

/-- Cuts the runs off the end of sorted values, the last row of the grid first. `last` is the place
where the run of the first row given ends. -/
def cutRuns? (sorted : List α) (last : Nat) (runs : List (List α)) :
    List (GridRow α) → Option (List (List α))
  | [] => some runs
  | row :: rows => do
    let start ← row.starts[last]?
    let run ← run? sorted start last
    cutRuns? sorted (start - 1) (run :: runs) rows

/-- How many different values sorted values have. -/
def distinctCount : List α → Nat
  | [] => 0
  | [_] => 1
  | x :: y :: r => (if less x y then 1 else 0) + distinctCount (y :: r)

/-- The classes of sorted values with at least `k` and at least two different values. -/
def sortedClasses? (sorted : List α) (k : Nat) : Option (List (List α)) := do
  let rows ← Grid.rows? sorted k
  let last ← minus? sorted.length 1
  cutRuns? sorted last [] rows.reverse

/-- The values in ascending order. -/
def sortValues (values : List α) : List α := values.mergeSort precedes

/-- The classes of values, or why there are none; it has no value if a place is looked up that is
not there. -/
def classes? (values : List α) (k : Nat) : Option (Except ClusterError (List (List α))) :=
  if values.isEmpty then some (.error .noValues)
  else if k = 0 then some (.error .noClusters)
  else if values.any (fun x => !isFinite x) then some (.error .notFinite)
  else
    let sorted := sortValues values
    let distinct := distinctCount sorted
    if distinct < k then some (.error (.tooMany k distinct))
    else if distinct = 1 then some (.ok [sorted])
    else (sortedClasses? sorted k).map .ok

/-- The classes of values, or why there are none. -/
def classes (values : List α) (k : Nat) : Except ClusterError (List (List α)) :=
  (classes? values k).getD (.ok [])

/-- The greatest value of every class. -/
def upperBounds (values : List α) (k : Nat) : Except ClusterError (List α) :=
  (classes values k).map fun cs => cs.filterMap List.getLast?

/-- The least and the greatest value, found without sorting. -/
def extremes? : List α → Option (α × α)
  | [] => none
  | x :: r => some (r.foldl (fun (lo, hi) v =>
      (if less v lo then v else lo, if less hi v then v else hi)) (x, x))

end Choropleth
