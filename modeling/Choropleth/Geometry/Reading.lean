import Choropleth.Geometry.Zone
import Choropleth.Number.Reading
import Choropleth.Text.Blank
import Choropleth.Text.Quoted

/-!
# Zones in requests

A request restricts its areas by a box, by a centre with a radius, or by a ring, and by at most one
of them.

* `ZoneError`: why a zone is refused;
* `parseBox`, `parseCentre`, `parseRadius`, `parseRing`: the parameters one by one;
* `parseZone`: the parameters together.
-/

namespace Choropleth

/-- Why a zone is refused. -/
inductive ZoneError
  | notANumber (param part : String)
  | outOfRange (param : String) (lon lat : Float)
  | boxNeedsFour
  | centreNeedsTwo
  | radiusNotPositive (raw : String)
  | ringOddCount
  | ringTooShort (points : Nat)
  | ringOpen
  | ringFlat
  | centreWithoutRadius
  | severalZones
deriving DecidableEq

/-- The least number of points of a ring: a triangle and its first corner again. -/
def minRingPoints : Nat := 4

namespace ZoneError

/-- The wording of the error. -/
def message : ZoneError → String
  | notANumber param part => param ++ ": " ++ Text.quoted part ++ " is not a number"
  | outOfRange param lon lat =>
    param ++ ": " ++ tableNotation.write lon ++ "," ++ tableNotation.write lat ++ " is out of range"
  | boxNeedsFour => "bbox: expected lon1,lat1,lon2,lat2"
  | centreNeedsTwo => "location: expected lon,lat"
  | radiusNotPositive raw =>
    "radius: " ++ Text.quoted raw ++ " is not a positive number of metres"
  | ringOddCount => "polygon: odd number of coordinates"
  | ringTooShort points =>
    "polygon: need at least " ++ toString minRingPoints ++ " points, got " ++ toString points
  | ringOpen => "polygon: first and last points must be equal"
  | ringFlat => "polygon: ring encloses no area"
  | centreWithoutRadius => "location and radius must be given together"
  | severalZones => "only one of bbox, location+radius, or polygon may be given"

end ZoneError

/-- The finite number that a text between commas stands for. -/
def parseNumber (param : String) (part : List Char) : Except ZoneError Float :=
  let part := Text.trim part
  match Number.readFloat? part with
  | some x => if x.isFinite then .ok x else .error (.notANumber param (String.ofList part))
  | none => .error (.notANumber param (String.ofList part))

/-- The numbers of a parameter, with commas between them. -/
def parseNumbers (raw param : String) : Except ZoneError (List Float) :=
  (Text.pieces ',' raw.toList).mapM (parseNumber param)

/-- A point of the map; longitude and latitude have to be in range. -/
def checkedPosition (param : String) (lon lat : Float) : Except ZoneError Position :=
  if -180.0 ≤ lon ∧ lon ≤ 180.0 ∧ -90.0 ≤ lat ∧ lat ≤ 90.0 then .ok ⟨lon, lat⟩
  else .error (.outOfRange param lon lat)

/-- Reads two opposite corners of a box. -/
def parseBox (raw : String) : Except ZoneError Box := do
  match ← parseNumbers raw "bbox" with
  | [lon1, lat1, lon2, lat2] =>
    let a ← checkedPosition "bbox" lon1 lat1
    let b ← checkedPosition "bbox" lon2 lat2
    pure (Box.ofCorners a b)
  | _ => throw .boxNeedsFour

/-- Reads a centre. -/
def parseCentre (raw : String) : Except ZoneError Position := do
  match ← parseNumbers raw "location" with
  | [lon, lat] => checkedPosition "location" lon lat
  | _ => throw .centreNeedsTwo

/-- Reads a radius in metres. -/
def parseRadius (raw : String) : Except ZoneError Float :=
  match Number.readFloat? (Text.trim raw.toList) with
  | some x => if x.isFinite ∧ 0.0 < x then .ok x else .error (.radiusNotPositive raw)
  | none => .error (.radiusNotPositive raw)

/-- The points whose coordinates follow one another. -/
def pairUp (param : String) : List Float → Except ZoneError (List Position)
  | lon :: lat :: r => do
    let p ← checkedPosition param lon lat
    let ps ← pairUp param r
    pure (p :: ps)
  | _ => .ok []

/-- Two points are equal if their coordinates are, `0` and `-0` being the same. -/
def samePosition (p q : Position) : Bool := p.lon == q.lon && p.lat == q.lat

/-- Twice the signed area of a ring, by the shoelace formula with the first point as origin. -/
def shoelace : List Position → Float
  | [] => 0
  | s :: r =>
    let moved := r.map fun p => (p.lon - s.lon, p.lat - s.lat)
    (moved.zip moved.tail).foldl (fun sum (p, q) => sum + (p.1 * q.2 - p.2 * q.1)) 0

/-- The ring encloses an area, as binary64 arithmetic computes it. -/
def enclosesArea (points : List Position) : Bool := !((shoelace points / 2).abs == 0)

/-- Reads a ring. -/
def parseRing (raw : String) : Except ZoneError (List Position) := do
  let numbers ← parseNumbers raw "polygon"
  if numbers.length % 2 ≠ 0 then throw .ringOddCount
  let points ← pairUp "polygon" numbers
  if points.length < minRingPoints then throw (.ringTooShort points.length)
  match points.head?, points.getLast? with
  | some p, some q => if !samePosition p q then throw .ringOpen
  | _, _ => throw .ringOpen
  if !enclosesArea points then throw .ringFlat
  pure points

/-- The four parameters that describe a zone, as far as they are given. -/
structure ZoneParams where
  box : Option String := none
  centre : Option String := none
  radius : Option String := none
  ring : Option String := none
deriving DecidableEq

/-- Reads a zone. A centre and a radius go together, and one zone at most may be given. -/
def parseZone (p : ZoneParams) : Except ZoneError (Option Zone) :=
  match p.centre, p.radius with
  | some _, none => .error .centreWithoutRadius
  | none, some _ => .error .centreWithoutRadius
  | some centre, some radius =>
    if p.box.isSome ∨ p.ring.isSome then .error .severalZones
    else do
      let c ← parseCentre centre
      let m ← parseRadius radius
      pure (some (.disc c m))
  | none, none =>
    match p.box, p.ring with
    | some _, some _ => .error .severalZones
    | some box, none => (parseBox box).map fun b => some (.box b)
    | none, some ring => (parseRing ring).map fun ps => some (.ring ps)
    | none, none => .ok none

end Choropleth
