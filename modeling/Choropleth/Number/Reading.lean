/-!
# Reading numbers

Numbers in requests and settings are read in full: a text that goes on after the number is refused.

* `readFloat?`: an optional sign, then `inf`, `infinity` or `nan` in any case, or digits with an
  optional point and an optional exponent;
* `readNat?`, `readInt?`: an optional sign and digits, within given bounds.
-/

namespace Choropleth
namespace Number

/-- An ASCII decimal digit. -/
def isDigit (c : Char) : Bool := '0' ≤ c && c ≤ '9'

/-- The value of digits, most significant first. -/
def digitsValue (ds : List Char) : Nat :=
  ds.foldl (fun n c => 10 * n + (c.toNat - '0'.toNat)) 0

/-- A text of one digit or more, as a number. -/
def readDigits? (s : List Char) : Option Nat :=
  if !s.isEmpty && s.all isDigit then some (digitsValue s) else none

/-- The same letter in lower case, for ASCII letters. -/
def lower (s : List Char) : List Char := s.map Char.toLower

/-- A number without sign, as its digits and the power of ten they are multiplied by. -/
def readScientific? (s : List Char) : Option (Nat × Int) :=
  let whole := s.takeWhile isDigit
  let rest := s.dropWhile isDigit
  let (fraction, rest) := match rest with
    | '.' :: r => (r.takeWhile isDigit, r.dropWhile isDigit)
    | r => ([], r)
  if whole.isEmpty && fraction.isEmpty then none
  else
    let value (e : Int) := (digitsValue (whole ++ fraction), e - fraction.length)
    match rest with
    | [] => some (value 0)
    | c :: r =>
      if c = 'e' ∨ c = 'E' then
        match r with
        | '-' :: ds => (readDigits? ds).map fun n => value (-(n : Int))
        | '+' :: ds => (readDigits? ds).map fun n => value n
        | ds => (readDigits? ds).map fun n => value n
      else none

/-- The binary64 number nearest to `m * 10 ^ e`. -/
def ofScientific (m : Nat) (e : Int) : Float := Float.ofScientific m (e < 0) e.natAbs

/-- A number without sign. -/
def readUnsigned? (s : List Char) : Option Float :=
  let w := lower s
  if w = "inf".toList ∨ w = "infinity".toList then some (1.0 / 0.0)
  else if w = "nan".toList then some (0.0 / 0.0)
  else (readScientific? s).map fun (m, e) => ofScientific m e

/-- A binary64 number. -/
def readFloat? (s : List Char) : Option Float :=
  match s with
  | '-' :: r => (readUnsigned? r).map fun x => -x
  | '+' :: r => readUnsigned? r
  | r => readUnsigned? r

/-- A natural number of at most `bound`, after an optional plus sign. -/
def readNat? (bound : Nat) (s : List Char) : Option Nat :=
  let digits := match s with
    | '+' :: r => r
    | r => r
  (readDigits? digits).filter (· ≤ bound)

/-- An integer between the bounds, after an optional sign. -/
def readInt? (low high : Int) (s : List Char) : Option Int :=
  let value := match s with
    | '-' :: r => (readDigits? r).map fun n => -(n : Int)
    | '+' :: r => (readDigits? r).map Int.ofNat
    | r => (readDigits? r).map Int.ofNat
  value.filter fun i => low ≤ i && i ≤ high

/-- The largest number that sizes and counts in requests and settings can have. -/
def maxCount : Nat := 18446744073709551615

end Number
end Choropleth
