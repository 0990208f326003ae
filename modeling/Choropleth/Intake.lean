import Choropleth.Crosstab
import Choropleth.QueryError

/-!
# Taking in streams of observations

A stream is a list of observations among which errors may stand. It is taken in from the front
until it ends, an error is met, or more items come than a ceiling allows.

* `Intake`: what has been built, the error that stopped it, and how many items were pulled;
* `takeIn`: takes a stream in;
* `tabulate`: a stream taken into a table;
* `collect`: a stream taken into the values of areas;
* `divided`: a stream with its values divided by those of their areas.
-/

namespace Choropleth

/-- A stream of observations with errors among them. -/
abbrev Stream := List (Except QueryError Observation)

/-- The outcome of taking in a stream. -/
structure Intake (α : Type) where
  built : α
  fault : Option QueryError
  pulled : Nat

namespace Intake

/-- What has been built, unless an error stopped it. -/
def result {α : Type} (t : Intake α) : Except QueryError α :=
  match t.fault with
  | some e => .error e
  | none => .ok t.built

end Intake

/-- Takes in a stream after `seen` items. The ceiling is checked before the item that exceeds it is
looked at; a ceiling of zero stands for none. -/
def takeInFrom {α : Type} (ceiling : Nat) (add : α → Observation → α) (seen : Nat) (built : α) :
    Stream → Intake α
  | [] => ⟨built, none, seen⟩
  | item :: r =>
    if 0 < ceiling ∧ ceiling ≤ seen then ⟨built, some (.tooLarge ceiling), seen + 1⟩
    else
      match item with
      | .error e => ⟨built, some e, seen + 1⟩
      | .ok o => takeInFrom ceiling add (seen + 1) (add built o) r

/-- Takes in a stream from its beginning. -/
def takeIn {α : Type} (ceiling : Nat) (add : α → Observation → α) (built : α) (s : Stream) :
    Intake α :=
  takeInFrom ceiling add 0 built s

/-- Takes a stream into a table. -/
def tabulate (ceiling : Nat) (s : Stream) : Intake Crosstab := takeIn ceiling Crosstab.insert {} s

/-- Records the value of an observation for its area. -/
def Ledger.record (m : Ledger) (o : Observation) : Ledger := m.put o.area o.value

/-- Takes a stream into the values of areas. -/
def collect (ceiling : Nat) (m : Ledger) (s : Stream) : Intake Ledger :=
  takeIn ceiling Ledger.record m s

/-- Divides an observation by the value of its area. -/
def divide (denominators : Ledger) (label : String) (o : Observation) :
    Except QueryError Observation :=
  match denominators.get? o.area with
  | none => .error (.partialContent label o.category (some o.area))
  | some d =>
    if d == 0 then .error (.zeroDenominator label o.category o.area)
    else .ok { o with value := o.value / d }

/-- The stream with its values divided by those of their areas. `label` names the area types in
errors. -/
def divided (denominators : Ledger) (label : String) (s : Stream) : Stream :=
  s.map fun item =>
    match item with
    | .error e => .error e
    | .ok o => divide denominators label o

end Choropleth
