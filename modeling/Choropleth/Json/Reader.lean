import Choropleth.Json.Numeral

/-!
# Reading JSON texts

The strict grammar: no comments, no trailing commas, no leading zeros, blanks only between tokens,
and nothing but blanks after the value. An escaped surrogate has to be one of a pair.

* `Json.parse?`: the value of a text.
-/

namespace Choropleth
namespace Json
namespace Reader

/-- The blanks between tokens. -/
def isSpace (c : Char) : Bool := c = ' ' || c = '\n' || c = '\r' || c = '\t'

/-- The text after the blanks it begins with. -/
def skip (s : List Char) : List Char := s.dropWhile isSpace

/-- A decimal digit. -/
def isDigit (c : Char) : Bool := '0' ≤ c && c ≤ '9'

/-- The value of a hexadecimal digit. -/
def hexValue? (c : Char) : Option Nat :=
  if '0' ≤ c ∧ c ≤ '9' then some (c.toNat - '0'.toNat)
  else if 'a' ≤ c ∧ c ≤ 'f' then some (c.toNat - 'a'.toNat + 10)
  else if 'A' ≤ c ∧ c ≤ 'F' then some (c.toNat - 'A'.toNat + 10)
  else none

/-- Four hexadecimal digits at the front of a text, and what follows them. -/
def hexUnit? : List Char → Option (Nat × List Char)
  | a :: b :: c :: d :: r => do
    let a ← hexValue? a
    let b ← hexValue? b
    let c ← hexValue? c
    let d ← hexValue? d
    pure (((a * 16 + b) * 16 + c) * 16 + d, r)
  | _ => none

/-- The character of an escape `\u`, whose digits are at the front of the text. -/
def unicode? (s : List Char) : Option (Char × List Char) := do
  let (u, r) ← hexUnit? s
  if u < 0xD800 ∨ 0xDFFF < u then pure (Char.ofNat u, r)
  else if 0xDC00 ≤ u then none
  else
    match r with
    | '\\' :: 'u' :: r => do
      let (v, r) ← hexUnit? r
      if 0xDC00 ≤ v ∧ v ≤ 0xDFFF then
        pure (Char.ofNat (0x10000 + (u - 0xD800) * 0x400 + (v - 0xDC00)), r)
      else none
    | _ => none

/-- The character that a letter after a backslash stands for. -/
def unescape? : Char → Option Char
  | '"' => some '"'
  | '\\' => some '\\'
  | '/' => some '/'
  | 'b' => some '\x08'
  | 'f' => some '\x0c'
  | 'n' => some '\n'
  | 'r' => some '\r'
  | 't' => some '\t'
  | _ => none

/-- The rest of a string after its opening quote; `seen` holds its characters so far, last first. -/
def stringRest? : Nat → List Char → List Char → Option (String × List Char)
  | 0, _, _ => none
  | _ + 1, _, [] => none
  | _ + 1, seen, '"' :: r => some (String.ofList seen.reverse, r)
  | fuel + 1, seen, '\\' :: 'u' :: r => do
    let (c, r) ← unicode? r
    stringRest? fuel (c :: seen) r
  | fuel + 1, seen, '\\' :: c :: r => do
    let c ← unescape? c
    stringRest? fuel (c :: seen) r
  | fuel + 1, seen, c :: r =>
    if c = '\\' ∨ c.toNat < 0x20 then none else stringRest? fuel (c :: seen) r

/-- A string after its opening quote. -/
def string? (s : List Char) : Option (String × List Char) := stringRest? (s.length + 1) [] s

/-- One digit or more at the front of a text, and what follows them. -/
def digits? (s : List Char) : Option (List Char × List Char) :=
  let ds := s.takeWhile isDigit
  if ds.isEmpty then none else some (ds, s.dropWhile isDigit)

/-- A number at the front of a text. -/
def numeral? (s : List Char) : Option (Numeral × List Char) := do
  let (negative, s) := match s with
    | '-' :: r => (true, r)
    | r => (false, r)
  let (whole, s) ← digits? s
  if whole.head? = some '0' ∧ whole.length ≠ 1 then none
  let (fraction, s) ← match s with
    | '.' :: r => (digits? r).map fun (ds, r) => (some ds, r)
    | r => some (none, r)
  let (exponent, s) ← match s with
    | c :: r =>
      if c = 'e' ∨ c = 'E' then
        match r with
        | '-' :: r => (digits? r).map fun (ds, r) => (some (true, ds), r)
        | '+' :: r => (digits? r).map fun (ds, r) => (some (false, ds), r)
        | r => (digits? r).map fun (ds, r) => (some (false, ds), r)
      else some (none, c :: r)
    | [] => some (none, [])
  pure (⟨negative, whole, fraction, exponent⟩, s)

mutual

/-- A value at the front of a text, after blanks; `fuel` bounds the number of steps. -/
def value? : Nat → List Char → Option (Json × List Char)
  | 0, _ => none
  | fuel + 1, s =>
    match skip s with
    | 'n' :: 'u' :: 'l' :: 'l' :: r => some (.null, r)
    | 't' :: 'r' :: 'u' :: 'e' :: r => some (.bool true, r)
    | 'f' :: 'a' :: 'l' :: 's' :: 'e' :: r => some (.bool false, r)
    | '"' :: r => (string? r).map fun (t, r) => (.string t, r)
    | '[' :: r =>
      match skip r with
      | ']' :: r => some (.array [], r)
      | r => (items? fuel r).map fun (vs, r) => (.array vs, r)
    | '\x7b' :: r =>
      match skip r with
      | '\x7d' :: r => some (.object [], r)
      | r => (members? fuel r).map fun (ms, r) => (.object ms, r)
    | r => (numeral? r).map fun (n, r) => (n.value, r)

/-- The items of an array up to its closing bracket. -/
def items? : Nat → List Char → Option (List Json × List Char)
  | 0, _ => none
  | fuel + 1, s => do
    let (v, r) ← value? fuel s
    match skip r with
    | ',' :: r => (items? fuel r).map fun (vs, r) => (v :: vs, r)
    | ']' :: r => some ([v], r)
    | _ => none

/-- The members of an object up to its closing brace. -/
def members? : Nat → List Char → Option (Members × List Char)
  | 0, _ => none
  | fuel + 1, s =>
    match skip s with
    | '"' :: r => do
      let (name, r) ← string? r
      match skip r with
      | ':' :: r => do
        let (v, r) ← value? fuel r
        match skip r with
        | ',' :: r => (members? fuel r).map fun (ms, r) => ((name, v) :: ms, r)
        | '\x7d' :: r => some ([(name, v)], r)
        | _ => none
      | _ => none
    | _ => none

end
end Reader

/-- The value of a JSON text. -/
def parse? (text : String) : Option Json := do
  let s := text.toList
  let (v, r) ← Reader.value? (2 * s.length + 2) s
  if (Reader.skip r).isEmpty then some v else none

end Json
end Choropleth
