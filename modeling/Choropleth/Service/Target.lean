import Choropleth.Json.Reader
import Choropleth.Request.Params
import Choropleth.Text.Split
import Choropleth.Text.Utf8

/-!
# Request targets

The target of a request is a path, a question mark and a query; what follows a `#` does not count.
A byte may be written as `%` and two hexadecimal digits.

* `Target`: a path and the parameters of a query;
* `Target.ofUri`: reads a target;
* `Target.endpoint?`: what a path leads to.
-/

namespace Choropleth

/-- A path, in which most bytes have been decoded, and the parameters of a query. -/
structure Target where
  path : String
  params : Params
deriving DecidableEq

namespace Target

/-- The value of the two hexadecimal digits of an encoded byte. -/
def hexByte? (a b : UInt8) : Option UInt8 := do
  let high ← Json.Reader.hexValue? (Char.ofNat a.toNat)
  let low ← Json.Reader.hexValue? (Char.ofNat b.toNat)
  pure (UInt8.ofNat (16 * high + low))

/-- The byte `%`. -/
def percent : UInt8 := 0x25

/-- Decodes encoded bytes, except those that are to be kept. A `%` without two hexadecimal digits
stands for itself. -/
def decodeBytes (kept : UInt8 → Bool) : List UInt8 → List UInt8
  | [] => []
  | c :: a :: b :: r =>
    if c = percent then
      match hexByte? a b with
      | some v => if kept v then c :: decodeBytes kept (a :: b :: r) else v :: decodeBytes kept r
      | none => c :: decodeBytes kept (a :: b :: r)
    else c :: decodeBytes kept (a :: b :: r)
  | c :: r => c :: decodeBytes kept r

/-- The bytes that stay encoded in a path: `%`, `+` and `/`. -/
def keptInPath (b : UInt8) : Bool := b = percent || b = 0x2B || b = 0x2F

/-- Decodes a path. -/
def decodePath (s : String) : String := Text.ofBytes (decodeBytes keptInPath (Text.bytes s))

/-- Decodes all encoded bytes of a text. -/
def decodeAll (s : String) : String := Text.ofBytes (decodeBytes (fun _ => false) (Text.bytes s))

/-- Decodes a name or a value of a query, in which `+` stands for a blank. -/
def decodeField (s : List Char) : String :=
  decodeAll (String.ofList (s.map fun c => if c = '+' then ' ' else c))

/-- The name and the value of a part of a query, between which there is the first `=`. -/
def pairOf (part : List Char) : String × String :=
  (decodeField (part.takeWhile fun c => c ≠ '='),
    decodeField ((part.dropWhile fun c => c ≠ '=').drop 1))

/-- The parameters of a query. -/
def paramsOf (query : List Char) : Params :=
  ((Text.pieces '&' query).filter fun p => p ≠ []).map pairOf

/-- Reads a target. -/
def ofUri (uri : String) : Target :=
  let s := uri.toList.takeWhile fun c => c ≠ '#'
  { path := decodePath (String.ofList (s.takeWhile fun c => c ≠ '?'))
    params := paramsOf ((s.dropWhile fun c => c ≠ '?').drop 1) }

end Target

/-- What can be asked for. -/
inductive Endpoint
  /-- A table. -/
  | table
  /-- The breaks of classes. -/
  | breaks
deriving DecidableEq

/-- The endpoint that a path leads to, and the part of the path for the census year. -/
def Target.endpoint? (t : Target) : Option (Endpoint × String) :=
  match (Text.pieces '/' t.path.toList).map String.ofList with
  | ["", "api", "query", year] => if year = "" then none else some (.table, year)
  | ["", "api", "ckmeans", year] => if year = "" then none else some (.breaks, year)
  | _ => none

end Choropleth
