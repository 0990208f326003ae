import Choropleth.Json.Basic
import Choropleth.Number.Reading

/-!
# Numbers in JSON texts

A number is gathered digit by digit as long as its significand fits in 64 bits; further digits only
move the decimal point. The significand is then scaled by a power of ten in binary64 arithmetic, so
that long decimals may end up a last place away from the nearest binary64 number.

* `Numeral`: the parts of a number as it is written;
* `Numeral.value`: the number it stands for.
-/

namespace Choropleth
namespace Json

/-- The parts of a number: its sign, the digits before and after the point, and the exponent. -/
structure Numeral where
  negative : Bool
  whole : List Char
  fraction : Option (List Char)
  exponent : Option (Bool × List Char)

namespace Numeral

/-- Appends digits to a significand as long as it stays below `2 ^ 64`; counts the digits that were
appended. -/
def gather (significand taken : Nat) : List Char → Nat × Nat
  | [] => (significand, taken)
  | c :: r =>
    let next := 10 * significand + (c.toNat - '0'.toNat)
    if next ≤ Number.maxCount then gather next (taken + 1) r else (significand, taken)

/-- A power of ten as a binary64 number. -/
def powerOfTen (n : Nat) : Float := Float.ofScientific 1 false n

/-- Divides by `10 ^ n`, in steps within the range of binary64. -/
def scaleDown (x : Float) (n : Nat) : Float :=
  if n ≤ 308 then x / powerOfTen n
  else if x == 0 then x
  else scaleDown (x / powerOfTen 308) (n - 308)
termination_by n

/-- A significand times a power of ten; out of range it is an infinity. -/
def scaled (significand : Nat) (exponent : Int) : Float :=
  let x := significand.toUInt64.toFloat
  if exponent < 0 then scaleDown x exponent.natAbs
  else if exponent ≤ 308 then x * powerOfTen exponent.toNat
  else if significand = 0 then x
  else 1.0 / 0.0

/-- The value of exponent digits, with a bound that no digits can exceed. -/
def exponentValue (ds : List Char) : Nat :=
  ds.foldl (fun n c => min (10 * n + (c.toNat - '0'.toNat)) (Nat.pow 2 31)) 0

/-- The number that is written: an integer if it has neither point nor exponent and fits in 64
bits, a binary64 number otherwise. -/
def value (n : Numeral) : Json :=
  let signed (x : Float) : Json := .float (if n.negative then -x else x)
  let (s, taken) := gather 0 0 n.whole
  let dropped : Int := n.whole.length - taken
  match n.fraction, n.exponent with
  | none, none =>
    if dropped ≠ 0 then signed (scaled s dropped)
    else if !n.negative then .int s
    else if s = 0 ∨ Nat.pow 2 63 < s then signed s.toUInt64.toFloat
    else .int (-s)
  | fraction, exponent =>
    let (s, places) := gather s 0 (fraction.getD [])
    let shift := match exponent with
      | none => 0
      | some (negative, ds) =>
        if negative then -(exponentValue ds : Int) else exponentValue ds
    signed (scaled s (dropped - places + shift))

end Numeral
end Json
end Choropleth
