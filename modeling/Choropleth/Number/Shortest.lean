import Choropleth.Number.Binary

/-!
# The fewest digits that read back

A number is written with as few significant digits as a reader needs to get the same number back;
of two such decimals with equally few digits the nearer one is taken.

* `Decimal`: digits times a power of ten;
* `Dyadic.readsBack`: a decimal lies among the reals that round to the number;
* `Dyadic.shortest`: the search over ever finer decimal grids.
-/

namespace Choropleth

/-- The value `digits * 10 ^ exponent`. -/
structure Decimal where
  digits : Nat
  exponent : Int
deriving DecidableEq

/-- Which of two equally near decimals is taken. -/
inductive Tie
  | upward
  | toEven
deriving DecidableEq

namespace Decimal

/-- Compares `d * 10 ^ i` with `n * 2 ^ j`. -/
def compareScaled (d : Nat) (i : Int) (n : Nat) (j : Int) : Ordering :=
  compare (d * Nat.pow 10 i.toNat * Nat.pow 2 (-j).toNat)
    (n * Nat.pow 2 j.toNat * Nat.pow 10 (-i).toNat)

/-- The same value with the zeros at the end of the digits moved into the exponent, at most `fuel`
of them. -/
def stripZeros : Nat → Decimal → Decimal
  | 0, d => d
  | fuel + 1, d =>
    if d.digits ≠ 0 ∧ d.digits % 10 = 0 then stripZeros fuel ⟨d.digits / 10, d.exponent + 1⟩ else d

end Decimal

namespace Dyadic

open Decimal

/-- The decimal lies among the reals that round to the number: between the midpoints to its two
neighbours, which count if the significand is even. -/
def readsBack (x : Dyadic) (d : Decimal) : Bool :=
  let low := if x.narrowBelow then 4 * x.significand - 1 else 4 * x.significand - 2
  let closed := x.significand % 2 = 0
  let atLow := compareScaled d.digits d.exponent low (x.exponent - 2)
  let atHigh := compareScaled d.digits d.exponent (4 * x.significand + 2) (x.exponent - 2)
  (atLow = .gt || (closed && atLow = .eq)) && (atHigh = .lt || (closed && atHigh = .eq))

/-- The least `k` from `k` on, within `fuel` steps, with `x < 10 ^ k`. -/
def scaleFrom (x : Dyadic) : Nat → Int → Int
  | 0, k => k
  | fuel + 1, k =>
    if compareScaled 1 k x.significand x.exponent = .gt then k else scaleFrom x fuel (k + 1)

/-- The least `k` with `x < 10 ^ k`, for a number that is not zero: the search starts at a lower
bound drawn from the binary logarithm. -/
def scale (x : Dyadic) : Int :=
  scaleFrom x 4 (((x.significand.log2 : Int) + x.exponent) * 30103 / 100000 - 1)

/-- The greatest multiple of `10 ^ k` that is at most `x`, divided by `10 ^ k`. -/
def floorAt (x : Dyadic) (k : Int) : Nat :=
  x.significand * Nat.pow 2 x.exponent.toNat * Nat.pow 10 (-k).toNat /
    (Nat.pow 10 k.toNat * Nat.pow 2 (-x.exponent).toNat)

/-- Of two neighbouring decimals on a grid around `x` the nearer one. -/
def nearer (tie : Tie) (x : Dyadic) (n : Nat) (k : Int) : Decimal :=
  match compareScaled (2 * n + 1) k (2 * x.significand) x.exponent with
  | .gt => ⟨n, k⟩
  | .lt => ⟨n + 1, k⟩
  | .eq => if tie = .toEven ∧ n % 2 = 0 then ⟨n, k⟩ else ⟨n + 1, k⟩

/-- The decimal on the grid of the multiples of `10 ^ k` that reads back and lies nearest to `x`. -/
def onGrid? (tie : Tie) (x : Dyadic) (k : Int) : Option Decimal :=
  let n := x.floorAt k
  match x.readsBack ⟨n, k⟩, x.readsBack ⟨n + 1, k⟩ with
  | true, true => some (nearer tie x n k)
  | true, false => some ⟨n, k⟩
  | false, true => some ⟨n + 1, k⟩
  | false, false => none

/-- The exact value as a decimal. -/
def exactDecimal (x : Dyadic) : Decimal :=
  ⟨x.significand * Nat.pow 2 x.exponent.toNat * Nat.pow 5 (-x.exponent).toNat,
    -((-x.exponent).toNat : Int)⟩

/-- The decimal with the fewest digits that reads back. Grids of one to seventeen digits are tried
in turn; the exact value stands in should all of them fail. -/
def shortest (tie : Tie) (x : Dyadic) : Decimal :=
  if x.significand = 0 then ⟨0, 0⟩
  else
    let k := x.scale
    let found := (List.range 17).findSome? fun (n : Nat) => onGrid? tie x (k - 1 - n)
    (found.getD x.exactDecimal).stripZeros 800

end Dyadic
end Choropleth
