/-!
# Binary64 numbers

Observations, coordinates and ratios are binary64 numbers. Core gives their sums, products and
comparisons; this module adds the operations that core lacks.

* `Dyadic`: a natural number times a power of two, the exact value of a finite number without sign;
* `fma`: `a * b + c`, rounded once;
* `precedes`: the total order on numbers, in which `-0` comes before `0`;
* `lesser`, `greater`: minimum and maximum, a NaN giving way to the other number;
* `midpoint`: half the sum, without overflow.
-/

namespace Choropleth

/-- The value `significand * 2 ^ exponent`; the gap to the next lower binary64 number is half the
gap to the next higher one if `narrowBelow` holds. -/
structure Dyadic where
  significand : Nat
  exponent : Int
  narrowBelow : Bool

namespace Dyadic

/-- The value of a finite number, its sign left out. -/
def ofFloat (x : Float) : Dyadic :=
  let bits : Nat := x.toBits.toNat
  let exponent : Nat := bits / Nat.pow 2 52 % Nat.pow 2 11
  let fraction : Nat := bits % Nat.pow 2 52
  if exponent = 0 then ⟨fraction, -1074, false⟩
  else ⟨Nat.pow 2 52 + fraction, (exponent : Int) - 1075, fraction = 0 && 1 < exponent⟩

end Dyadic

namespace Number

open Float.Model (Format)
open Float.Model.UnpackedFloat (add mul)

/-- The sign bit is set. -/
def isNegative (x : Float) : Bool := Nat.pow 2 63 ≤ x.toBits.toNat

/-- The product without rounding, where it is finite and not zero; else the rounded product. -/
def exactProduct : Float.Model.UnpackedFloat → Float.Model.UnpackedFloat →
    Float.Model.UnpackedFloat
  | .finite s m e hm, .finite t n f hn => .finite (s * t) (m * n) (e + f) (Nat.mul_pos hm hn)
  | x, y => mul Format.binary64 x y

/-- `a * b + c`, computed exactly and rounded once. -/
def fma (a b c : Float) : Float :=
  let x := a.toModel.unpack
  let y := b.toModel.unpack
  match c.toModel.unpack with
  | .zero s =>
    match exactProduct x y with
    | .finite .. => a * b
    | p => .ofModel (.pack (add Format.binary64 p (.zero s)))
  | z => .ofModel (.pack (add Format.binary64 (exactProduct x y) z))

/-- The place of a number in the total order: the bits, with the order of the negative numbers
turned round. -/
def rank (x : Float) : Int :=
  let bits : Nat := x.toBits.toNat
  if Nat.pow 2 63 ≤ bits then (Nat.pow 2 63 : Int) - 1 - bits else bits

/-- `x` comes before `y` in the total order, or the two are the same number. -/
def precedes (x y : Float) : Bool := rank x ≤ rank y

/-- The smaller number; a NaN gives way to the other number. -/
def lesser (x y : Float) : Float := if x.isNaN then y else if y < x then y else x

/-- The larger number; a NaN gives way to the other number. -/
def greater (x y : Float) : Float := if x.isNaN then y else if x < y then y else x

/-- Half the sum of two numbers. Where the sum could overflow the halves are added instead. -/
def midpoint (x y : Float) : Float :=
  let least := 2 * Float.ofBits 0x0010000000000000
  let most := Float.ofBits 0x7FEFFFFFFFFFFFFF / 2
  if x.abs ≤ most ∧ y.abs ≤ most then (x + y) / 2
  else if x.abs < least then x + y / 2
  else if y.abs < least then x / 2 + y
  else x / 2 + y / 2

end Number
end Choropleth
