import Choropleth.Condition.Meaning
import Choropleth.Intake
import Choropleth.Store.Basic

/-!
# Scans

A scan yields the observations of a store that a condition accepts, one at a time, while the time
for the query lasts.

* `Timer`: tells at every pull whether the time is up;
* `Timer.limit`: the stream that is pulled from observations under a timer;
* `Store.select`: the observations that a condition accepts;
* `BoundaryTest`: how boundaries are compared with rings;
* `BoundaryTest.select`: the observations that a condition on boundaries accepts.
-/

namespace Choropleth

/-- Tells of every pull of a query, counted from zero, whether the time for the query is up by
then. -/
abbrev Timer := Nat → Bool

namespace Timer

/-- The time is never up. -/
def unlimited : Timer := fun _ => false

/-- The timer of a limit, given the time that has passed at every pull. -/
def ofLimit (limit : Option Nat) (elapsed : Nat → Nat) : Timer := fun n =>
  limit.any fun l => l ≤ elapsed n

/-- The timer after some pulls. -/
def after (t : Timer) (pulls : Nat) : Timer := fun n => t (pulls + n)

/-- The stream that is pulled from observations. Once the time is up, also at the pull that would
find no more of them, it yields an error and ends. -/
def limit (t : Timer) : List Observation → Stream
  | [] => if t 0 then [.error .deadlineExceeded] else []
  | o :: r => if t 0 then [.error .deadlineExceeded] else .ok o :: limit (t.after 1) r

@[simp] theorem limit_unlimited (os : List Observation) :
    unlimited.limit os = os.map Except.ok := by
  induction os with
  | nil => rfl
  | cons o r ih =>
    have : unlimited.after 1 = unlimited := rfl
    simp [limit, this, ih, unlimited]

end Timer

/-- The observation of a joined row. -/
def FactRow.toObservation (r : FactRow) : Observation := ⟨r.area, r.category, r.value⟩

/-- The observations of a store that a condition accepts. -/
def Store.select (s : Store) (q : Condition) : List Observation :=
  (s.rows.filter q.accepts).map FactRow.toObservation

/-- How boundaries in well-known binary are compared with rings in well-known text. The comparison
belongs to the database, which may also fail to work off a query that needs it. -/
structure BoundaryTest where
  /-- Why a query fails, if it does. -/
  fault? : Store → Condition → Option String := fun _ _ => none
  /-- A boundary meets a ring. -/
  meets : List UInt8 → String → Truth := fun _ _ => none

namespace BoundaryTest

/-- A row in which boundaries have been compared. An area without boundary meets no ring. -/
def see (x : BoundaryTest) (r : FactRow) : FactRow :=
  { r with
    meets := fun ring =>
      match r.boundary with
      | none => some false
      | some boundary => x.meets boundary ring }

/-- The observations of a store that a condition on boundaries accepts. -/
def select (x : BoundaryTest) (s : Store) (q : Condition) : Except QueryError (List Observation) :=
  match x.fault? s q with
  | some reason => .error (.store reason)
  | none => .ok (((s.rows.map x.see).filter q.accepts).map FactRow.toObservation)

end BoundaryTest

end Choropleth
