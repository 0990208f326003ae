import Choropleth.Breaks.Arranged
import Choropleth.Request.Table
import Choropleth.Store.Scan

/-!
# Queries

* `Engine`: the limits under which queries run;
* `Engine.select`, `Engine.scan`: the observations that a condition accepts, and their stream;
* `Engine.table`: the table of a request;
* `Engine.classify`: the breaks of a request.
-/

namespace Choropleth

/-- The limits under which queries run. -/
structure Engine where
  /-- The greatest number of observations that a table is made of; zero stands for no limit. -/
  ceiling : Nat := 0
  timer : Timer := Timer.unlimited
  /-- Conditions on boundaries may be asked. -/
  boundaries : Bool := false
  boundaryTest : BoundaryTest := {}

namespace Engine

/-- What a condition on boundaries meets where they may not be asked about. -/
def boundariesOff : QueryError := .invalidZone "polygon filters are not enabled on this server"

/-- The observations that a condition accepts. -/
def select (e : Engine) (s : Store) (q : Condition) : Except QueryError (List Observation) :=
  if q.needsBoundaries then
    if e.boundaries then e.boundaryTest.select s q else .error boundariesOff
  else .ok (s.select q)

/-- The observations that a condition accepts, pulled after `pulls` earlier ones of the query. -/
def scanAfter (e : Engine) (pulls : Nat) (s : Store) (q : Condition) : Except QueryError Stream :=
  (e.select s q).map (e.timer.after pulls).limit

/-- The observations that a condition accepts. -/
def scan (e : Engine) (s : Store) (q : Condition) : Except QueryError Stream := e.scanAfter 0 s q

/-- The table of a request. If it has a category to divide by, the denominators are read first. -/
def table (e : Engine) (s : Store) (r : TableRequest) : Except QueryError Crosstab :=
  match r.denominatorCondition? with
  | none => do
    let stream ← e.scan s r.condition
    (tabulate e.ceiling stream).result
  | some d => do
    let stream ← e.scan s d
    let denominators := collect e.ceiling [] stream
    let ledger ← denominators.result
    let stream ← e.scanAfter denominators.pulled s r.condition
    (tabulate e.ceiling (divided ledger r.areaTypeLabel stream)).result

/-- The metric sets of a store. The state of the source is the number of pulls so far. -/
def source (e : Engine) (s : Store) : Source Nat where
  load release t category ledger pulls :=
    match e.scanAfter pulls s (.forValues release t category) with
    | .error fault => (⟨ledger, some fault⟩, pulls)
    | .ok stream =>
      let intake := collect 0 ledger stream
      (⟨intake.built, intake.fault⟩, pulls + intake.pulled)

/-- The breaks of a request, with a scratch of its own whose maps are walked in some orders. The
ceiling does not apply to them. -/
def classify (e : Engine) (s : Store) (r : BreaksRequest) (arrangements : Arrangements) :
    Except QueryError Breaks :=
  (classifyArranged (e.source s) r { arrangements } 0).1

end Engine
end Choropleth
