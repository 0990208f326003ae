import Choropleth.Number.Shortest

/-!
# How numbers are written

A `Notation` gathers the decisions of one written form of numbers; `Notation.write` carries them
out. The digits themselves come from `Dyadic.shortest`.

* `tableNotation`: numbers in CSV cells, messages and well-known text, never with an exponent;
* `jsonNotation`: numbers in JSON texts.
-/

namespace Choropleth

/-- The decisions of one written form of numbers. -/
structure Notation where
  /-- Which of two equally near decimals is written. -/
  tie : Tie
  /-- Whether a number is written without exponent, by the exponent of its leading digit. -/
  isPlain : Int → Bool
  /-- What follows a whole number that is written without exponent. -/
  wholeEnd : String
  /-- The text of a NaN. -/
  nan : String
  /-- The text of positive infinity. -/
  infinity : String
  /-- The text of negative infinity. -/
  negativeInfinity : String

/-- Numbers in CSV cells, messages and well-known text: never with an exponent. -/
def tableNotation : Notation where
  tie := .upward
  isPlain := fun _ => true
  wholeEnd := ""
  nan := "NaN"
  infinity := "inf"
  negativeInfinity := "-inf"

/-- Numbers in JSON texts: plain from `0.00001` up to `10 ^ 16`, with an exponent otherwise. What
is not finite has no number there and is written as `null`. -/
def jsonNotation : Notation where
  tie := .toEven
  isPlain := fun e => -5 ≤ e && e < 16
  wholeEnd := ".0"
  nan := "null"
  infinity := "null"
  negativeInfinity := "null"

namespace Decimal

/-- The digits, most significant first. -/
def digitList (d : Decimal) : List Char := Nat.toDigits 10 d.digits

/-- The exponent of the leading digit. -/
def leading (d : Decimal) : Int := d.digitList.length - 1 + d.exponent

/-- The decimal without an exponent: the point stands after, inside or before the digits. -/
def plain (wholeEnd : List Char) (d : Decimal) : List Char :=
  let ds := d.digitList
  if 0 ≤ d.exponent then ds ++ List.replicate d.exponent.toNat '0' ++ wholeEnd
  else
    let places := (-d.exponent).toNat
    if places < ds.length then
      ds.take (ds.length - places) ++ '.' :: ds.drop (ds.length - places)
    else '0' :: '.' :: List.replicate (places - ds.length) '0' ++ ds

/-- The decimal with its point after the first digit and a signed exponent. -/
def scientific (d : Decimal) : List Char :=
  let mantissa := match d.digitList with
    | c :: r@(_ :: _) => c :: '.' :: r
    | ds => ds
  let e := d.leading
  mantissa ++ 'e' :: (if e < 0 then '-' else '+') :: Nat.toDigits 10 e.natAbs

/-- The decimal as a notation writes it, its sign left out. -/
def write (f : Notation) (d : Decimal) : List Char :=
  if d.digits = 0 ∨ f.isPlain d.leading then d.plain f.wholeEnd.toList else d.scientific

end Decimal

namespace Notation

/-- The text of a number. -/
def write (f : Notation) (x : Float) : String :=
  if x.isNaN then f.nan
  else if x.isInf then if Number.isNegative x then f.negativeInfinity else f.infinity
  else
    let body := ((Dyadic.ofFloat x).shortest f.tie).write f
    String.ofList (if Number.isNegative x then '-' :: body else body)

end Notation
end Choropleth
