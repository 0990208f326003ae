import Choropleth.Condition.Basic

/-!
# What conditions mean

The values are bound to the places of a condition from left to right. A comparison with a missing
value is unknown, and a row is accepted only if the condition is true of it.

* `Test.truth`, `Clause.truth`, `Condition.truth`: truth in a row;
* `Condition.accepts`: the rows that a query returns.
-/

namespace Choropleth

/-- Twice the mean radius of the earth in metres. -/
def earthDiameter : Float := 2 * 6371008.8

/-- An angle in radians. -/
def radians (degrees : Float) : Float := degrees * (3.14159265358979323846 / 180)

/-- The great-circle distance in metres between two positions. -/
def distance (p q : Position) : Float :=
  let dLat := Float.sin (radians (p.lat - q.lat) / 2)
  let dLon := Float.sin (radians (p.lon - q.lon) / 2)
  let h := (Float.pow dLat 2 +
    Float.cos (radians q.lat) * Float.cos (radians p.lat) * Float.pow dLon 2).sqrt
  earthDiameter * Float.asin (if h.isNaN then 1 else if h < 1 then h else 1)

/-- The distance of two opposite points of the earth. An area without centroid counts as that far
away. -/
def greatestDistance : Float := earthDiameter * Float.asin 1

namespace Test

/-- The distance of the centroid of an area from a point. -/
def centroidDistance (r : FactRow) (p : Position) : Float :=
  match r.centroidLon, r.centroidLat with
  | some lon, some lat => distance ⟨lon, lat⟩ p
  | _, _ => greatestDistance

/-- The truth of a test in a row, given the values for its places. -/
def truth (r : FactRow) : Test → List Datum → Truth
  | holds c, _ => (c.datum r).truth
  | same c d, _ => Datum.eq (c.datum r) (d.datum r)
  | equals c, [v] => Datum.eq (c.datum r) v
  | oneOf c _, vs => Truth.any (vs.map (Datum.eq (c.datum r)))
  | between c, [v, w] => Truth.both (Datum.le v (c.datum r)) (Datum.le (c.datum r) w)
  | startsWith c, [v] => Datum.startsWith (c.datum r) v
  | atLeast c, [v] => Datum.le v (c.datum r)
  | atMost c, [v] => Datum.le (c.datum r) v
  | withinDistance, [.real lat, _, .real lon, .real metres] =>
    some (Datum.realLe (centroidDistance r ⟨lon, lat⟩) metres)
  | meetsRing, [.text t] => r.meets t
  | _, _ => none

/-- The truths of tests, each taking its values from the front. -/
def truths (r : FactRow) : List Test → List Datum → List Truth
  | [], _ => []
  | t :: ts, vs => t.truth r (vs.take t.arity) :: truths r ts (vs.drop t.arity)

end Test

namespace Clause

/-- The truth of a clause in a row, given the values for its places. -/
def truth (r : FactRow) (vs : List Datum) : Clause → Truth
  | all ts => Truth.all (Test.truths r ts vs)
  | any ts => Truth.any (Test.truths r ts vs)

/-- The truths of clauses, each taking its values from the front. -/
def truths (r : FactRow) : List Clause → List Datum → List Truth
  | [], _ => []
  | c :: cs, vs => c.truth r (vs.take c.arity) :: truths r cs (vs.drop c.arity)

end Clause

namespace Condition

/-- The truth of a condition in a row. -/
def truth (q : Condition) (r : FactRow) : Truth :=
  Truth.all (Clause.truths r q.clauses q.values)

/-- The condition is true of a row. -/
def accepts (q : Condition) (r : FactRow) : Bool := q.truth r = some true

end Condition
end Choropleth
