import Choropleth.AreaType
import Choropleth.Condition.Row
import Choropleth.Geometry.Zone
import Choropleth.Observation
import Choropleth.Selection

/-!
# Conditions

A condition restricts the joined rows of a store. Its text has a place for every value of a request
and never the value itself; the values are kept beside it in the order of their places.

* `Test`, `Clause`: the shapes that a condition is made of, without any value from a request;
* `Condition`: clauses that all have to hold, and their values;
* `Condition.forRelease` and the functions after it: how a condition is built up;
* `Condition.forValues`: the condition for the values of one category in one area type.
-/

namespace Choropleth

/-- A comparison whose other side is a column, or values that are bound to it. -/
inductive Test
  /-- A column is true. -/
  | holds (c : Column)
  /-- Two columns are equal. -/
  | same (c d : Column)
  /-- A column equals a value. -/
  | equals (c : Column)
  /-- A column equals one of several values. -/
  | oneOf (c : Column) (count : Nat)
  /-- A column lies between two values. -/
  | between (c : Column)
  /-- A column begins with a value. -/
  | startsWith (c : Column)
  /-- A column is at least a value. -/
  | atLeast (c : Column)
  /-- A column is at most a value. -/
  | atMost (c : Column)
  /-- The centroid lies within a distance of a point. -/
  | withinDistance
  /-- The boundary meets a ring. -/
  | meetsRing
deriving DecidableEq

namespace Test

/-- How many values a test takes. -/
def arity : Test → Nat
  | holds _ => 0
  | same _ _ => 0
  | equals _ => 1
  | oneOf _ n => n
  | between _ => 2
  | startsWith _ => 1
  | atLeast _ => 1
  | atMost _ => 1
  | withinDistance => 4
  | meetsRing => 1

/-- How many values tests take together. -/
def arities : List Test → Nat
  | [] => 0
  | t :: r => t.arity + arities r

end Test

/-- A part of a condition. -/
inductive Clause
  /-- All of the tests hold. -/
  | all (tests : List Test)
  /-- One of the tests holds. -/
  | any (tests : List Test)
deriving DecidableEq

namespace Clause

/-- The clause of one test. -/
def one (t : Test) : Clause := all [t]

/-- The tests of a clause. -/
def tests : Clause → List Test
  | all ts => ts
  | any ts => ts

/-- How many values a clause takes. -/
def arity (c : Clause) : Nat := Test.arities c.tests

end Clause

/-- Clauses that all have to hold, with the values for their places, and whether boundaries are
needed to tell. -/
structure Condition where
  clauses : List Clause
  values : List Datum
  needsBoundaries : Bool
deriving DecidableEq

namespace Condition

/-- Adds a clause with its values. -/
def add (q : Condition) (c : Clause) (values : List Datum) : Condition :=
  { q with clauses := q.clauses ++ [c], values := q.values ++ values }

/-- The rows of a release, their categories being those of its census year. -/
def forRelease (r : Release) : Condition where
  clauses :=
    [.one (.equals .releaseYear), .one (.equals .releaseLabel),
      .one (.same .categoryYear .releaseYear)]
  values := [.int r.year, .text r.label]
  needsBoundaries := false

/-- The tests for a selection and for beginnings on one axis. -/
def axisTests (c : Column) (s : Selection) (beginnings : List String) : List Test :=
  (if s.codes.isEmpty then [] else [.oneOf c s.codes.length]) ++
    s.ranges.map (fun _ => .between c) ++ beginnings.map (fun _ => .startsWith c)

/-- The values for the tests of an axis. -/
def axisValues (s : Selection) (beginnings : List String) : List Datum :=
  s.codes.map .text ++ s.ranges.flatMap (fun r => [.text r.first, .text r.last]) ++
    beginnings.map .text

/-- Restricts an axis to a selection together with the codes that have one of the beginnings.
Without any of them the axis stays open. -/
def onAxis (q : Condition) (c : Column) (s : Selection) (beginnings : List String) : Condition :=
  if s.isEmpty ∧ beginnings.isEmpty then q
  else q.add (.any (axisTests c s beginnings)) (axisValues s beginnings)

/-- Restricts the areas to a selection. -/
def onAreas (q : Condition) (s : Selection) : Condition := q.onAxis .areaCode s []

/-- Restricts the categories to a selection together with the columns of whole tables. -/
def onCategories (q : Condition) (s : Selection) (tables : List String) : Condition :=
  q.onAxis .categoryCode s tables

/-- Restricts the areas to some types; without any type they stay open. -/
def onAreaTypes (q : Condition) (types : List AreaType) : Condition :=
  if types.isEmpty then q
  else q.add (.one (.oneOf .areaTypeName types.length)) (types.map fun t => .text t.name)

/-- The clause that the envelope of an area meets a box. -/
def envelopeMeets : Clause :=
  .all [.atLeast .maxLon, .atMost .minLon, .atLeast .maxLat, .atMost .minLat]

/-- The values for `envelopeMeets`. -/
def envelopeValues (b : Box) : List Datum :=
  [.real b.west, .real b.east, .real b.south, .real b.north]

/-- Restricts the areas to a box around a zone, if the zone has one. -/
def onEnvelope (q : Condition) : Option Box → Condition
  | some b => q.add envelopeMeets (envelopeValues b)
  | none => q

/-- Restricts the areas to a ring in well-known text, if there is one. -/
def onRing (q : Condition) : Option String → Condition
  | some t => q.add (.one .meetsRing) [.text t]
  | none => q

/-- Restricts the areas to valid ones in a zone; without a zone they stay open. -/
def onZone (q : Condition) : Option Zone → Condition
  | none => q
  | some z =>
    let q := q.add (.one (.holds .areaValid)) []
    match z with
    | .box b => q.onEnvelope (some b)
    | .disc c m =>
      q.add (.one .withinDistance) [.real c.lat, .real c.lat, .real c.lon, .real m]
    | .ring _ =>
      { (q.onEnvelope z.envelope?).onRing z.wellKnownText? with needsBoundaries := true }

/-- The condition for the values of one category in the valid areas of one type. -/
def forValues (r : Release) (t : AreaType) (category : String) : Condition :=
  (((forRelease r).add (.one (.holds .areaValid)) []).add (.one (.equals .areaTypeName))
    [.text t.name]).add (.one (.equals .categoryCode)) [.text category]

end Condition
end Choropleth
