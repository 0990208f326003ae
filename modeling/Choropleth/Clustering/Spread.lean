import Choropleth.Clustering.Scalar

/-!
# The spread of runs of sorted values

The spread of a run is the sum of the squared deviations of its values from their mean. It is
computed from sums over the values up to a place, shifted by the median to keep them small.

* `Sums`: the sums and the sums of squares up to every place;
* `Sums.spread?`: the spread of a run. It has no value where a place lies outside the sums.
-/

namespace Choropleth

/-- A difference of naturals that has to be one. -/
def minus? (a b : Nat) : Option Nat := if b ≤ a then some (a - b) else none

/-- The sums and the sums of squares of sorted values up to every place. -/
structure Sums (α : Type) where
  sum : Array α
  squares : Array α

namespace Sums

variable {α : Type} [Scalar α]

open Scalar

/-- Adds values after those whose last sums are given. -/
def extend (shift : α) (sums : Sums α) (sum squares : α) : List α → Sums α
  | [] => sums
  | x :: r =>
    let y := sub x shift
    let sum := add sum y
    let squares := mulAdd y y squares
    extend shift ⟨sums.sum.push sum, sums.squares.push squares⟩ sum squares r

/-- The sums of values shifted by `shift`. -/
def ofShifted (shift : α) : List α → Sums α
  | [] => ⟨#[], #[]⟩
  | x :: r =>
    let y := sub x shift
    extend shift ⟨#[y], #[mul y y]⟩ y (mul y y) r

/-- The sums of sorted values, shifted by their median. -/
def ofSorted? (sorted : List α) : Option (Sums α) :=
  (sorted[sorted.length / 2]?).map fun shift => ofShifted shift sorted

/-- The spread of the values at the places `j` to `i`. -/
def spread? (s : Sums α) (j i : Nat) : Option α := do
  let sumI ← s.sum[i]?
  let squaresI ← s.squares[i]?
  if j = 0 then
    pure (positivePart (sub squaresI (div (mul sumI sumI) (ofNat (i + 1)))))
  else
    let gap ← minus? i j
    let sumJ ← s.sum[j - 1]?
    let squaresJ ← s.squares[j - 1]?
    let count : α := ofNat (gap + 1)
    let mean := div (sub sumI sumJ) count
    pure (positivePart (mulAdd (mul count mean) (neg mean) (sub squaresI squaresJ)))

end Sums
end Choropleth
