import Choropleth.Number.Binary

/-!
# Arithmetic for clustering

Values are divided into classes by an algorithm that needs a few operations of arithmetic only. It
runs on binary64 numbers and, without any rounding, on rational numbers.

* `Scalar`: the operations;
* the instances for `Float` and `Rat`.
-/

namespace Choropleth

/-- The operations that clustering needs. -/
class Scalar (α : Type) where
  /-- A count as a number. -/
  ofNat : Nat → α
  add : α → α → α
  sub : α → α → α
  mul : α → α → α
  div : α → α → α
  neg : α → α
  /-- A product and a sum, rounded once. -/
  mulAdd : α → α → α → α
  /-- The number itself if it is positive, zero otherwise. -/
  positivePart : α → α
  /-- Strictly smaller. -/
  less : α → α → Bool
  /-- At least as large. -/
  atLeast : α → α → Bool
  /-- The order in which values are sorted. -/
  precedes : α → α → Bool
  /-- An ordinary number. -/
  isFinite : α → Bool

instance : Scalar Float where
  ofNat n := n.toUInt64.toFloat
  add x y := x + y
  sub x y := x - y
  mul x y := x * y
  div x y := x / y
  neg x := -x
  mulAdd := Number.fma
  positivePart x := if 0 < x then x else 0
  less x y := x < y
  atLeast x y := y ≤ x
  precedes := Number.precedes
  isFinite x := x.isFinite

instance : Scalar Rat where
  ofNat n := n
  add x y := x + y
  sub x y := x - y
  mul x y := x * y
  div x y := x / y
  neg x := -x
  mulAdd x y z := x * y + z
  positivePart x := if 0 < x then x else 0
  less x y := x < y
  atLeast x y := y ≤ x
  precedes x y := x ≤ y
  isFinite _ := true

end Choropleth
