import Choropleth.Breaks.Basic
import Choropleth.Clustering.Classes
import Choropleth.Request.Breaks

/-!
# Classification

A request is worked off area type by area type and, within one, category by category. Each metric
set, the values of a category in the areas of a type, is loaded from a source into a ledger that is
used again for the next one.

* `Source`: where metric sets are loaded from;
* `Scratch`: the ledgers and values that are used again;
* `classify`: the breaks of a request.

An empty metric set, or an empty set of denominators, ends a classification with an empty table.
-/

namespace Choropleth

/-- What a load leaves behind: the ledger it was given with the loaded values in it, in the order in
which it will be walked, and the error it failed with, if any. -/
structure Loaded where
  ledger : Ledger
  fault : Option QueryError

/-- Where metric sets are loaded from. A source may have a state and may fail. -/
structure Source (σ : Type) where
  load : Release → AreaType → String → Ledger → σ → Loaded × σ

/-- The ledgers and values that are used again from one metric set to the next. The ledgers are maps;
what is left in them of earlier sets when they have been cleared is the order in which they will be
walked, see `ArrangedScratch`. -/
structure Scratch where
  numerator : Ledger := []
  denominator : Ledger := []
  values : List Float := []

/-- The state of a classification: the scratch and the state of the source. -/
structure Bench (σ : Type) where
  scratch : Scratch
  source : σ

/-- The values of a ledger, in its order. -/
def Ledger.values (m : Ledger) : List Float := m.map Prod.snd

/-- Puts the ratios of the values of areas to their denominators behind values, up to the first area
that has none. -/
def pushRatios (t : AreaType) (category : String) (numerator : Ledger) :
    Ledger → List Float → Option QueryError × List Float
  | [], values => (none, values)
  | (area, d) :: r, values =>
    if d == 0 then (some (.zeroDenominator t.name category area), values)
    else
      match numerator.get? area with
      | none => (some (.partialContent t.name category (some area)), values)
      | some n => pushRatios t category numerator r (values ++ [n / d])

/-- Adds the classes of values to the breaks. -/
def recordClasses (b : Breaks) (values : List Float) (k : Nat) (t : AreaType) (category : String) :
    Except QueryError Breaks :=
  match upperBounds values k, extremes? values with
  | .error e, _ => .error (.clustering t.name category e)
  | .ok _, none => .error (.clustering t.name category .noValues)
  | .ok bounds, some (least, greatest) => .ok (b.record t category bounds least greatest)

/-- How a classification or a part of it ends: with breaks, or without data. -/
abbrev Outcome := Except QueryError (Option Breaks)

section

variable {σ : Type} (source : Source σ) (r : BreaksRequest)

/-- Loads the numerators of a category in an area type into the ledger for them, once cleared. -/
def loadNumerator (t : AreaType) (category : String) (w : Bench σ) : Option QueryError × Bench σ :=
  let scratch := { w.scratch with numerator := [] }
  let (loaded, s) := source.load r.release t category scratch.numerator w.source
  (loaded.fault, ⟨{ scratch with numerator := loaded.ledger }, s⟩)

/-- Loads the denominators of an area type into the ledger for them, once cleared. -/
def loadDenominator (t : AreaType) (category : String) (w : Bench σ) :
    Option QueryError × Bench σ :=
  let scratch := { w.scratch with denominator := [] }
  let (loaded, s) := source.load r.release t category scratch.denominator w.source
  (loaded.fault, ⟨{ scratch with denominator := loaded.ledger }, s⟩)

/-- Puts values in the place of earlier ones. -/
def Bench.withValues (w : Bench σ) (values : List Float) : Bench σ :=
  { w with scratch := { w.scratch with values } }

/-- Classifies the values of categories in area types, pair by pair. -/
def classifyValues (b : Breaks) : List (AreaType × String) → Bench σ → Outcome × Bench σ
  | [], w => (.ok (some b), w)
  | (t, category) :: rest, w =>
    match loadNumerator source r t category w with
    | (some e, w) => (.error e, w)
    | (none, w) =>
      if w.scratch.numerator.isEmpty then (.ok none, w)
      else
        let w := w.withValues []
        let w := w.withValues (w.scratch.values ++ Ledger.values w.scratch.numerator)
        match recordClasses b w.scratch.values r.classes t category with
        | .error e => (.error e, w)
        | .ok b => classifyValues b rest w

/-- Classifies the ratios of categories in one area type, whose denominators have been loaded. -/
def classifyRatios (t : AreaType) (b : Breaks) : List String → Bench σ →
    Except QueryError Breaks × Bench σ
  | [], w => (.ok b, w)
  | category :: rest, w =>
    match loadNumerator source r t category w with
    | (some e, w) => (.error e, w)
    | (none, w) =>
      let numerator := w.scratch.numerator
      let denominator := w.scratch.denominator
      if numerator.isEmpty ∨ numerator.length ≠ denominator.length then
        (.error (.partialContent t.name category none), w)
      else
        let w := w.withValues []
        let (fault, values) := pushRatios t category numerator denominator w.scratch.values
        let w := w.withValues values
        match fault with
        | some e => (.error e, w)
        | none =>
          match recordClasses b w.scratch.values r.classes t category with
          | .error e => (.error e, w)
          | .ok b => classifyRatios t b rest w

/-- Classifies ratios area type by area type. -/
def classifyTypes (divideBy : String) (b : Breaks) : List AreaType → Bench σ → Outcome × Bench σ
  | [], w => (.ok (some b), w)
  | t :: rest, w =>
    match loadDenominator source r t divideBy w with
    | (some e, w) => (.error e, w)
    | (none, w) =>
      if w.scratch.denominator.isEmpty then (.ok none, w)
      else
        match classifyRatios source r t b r.categories w with
        | (.error e, w) => (.error e, w)
        | (.ok b, w) => classifyTypes divideBy b rest w

/-- The pairs of an area type and a category in the order in which they are worked off. -/
def BreaksRequest.pairs (r : BreaksRequest) : List (AreaType × String) :=
  r.areaTypes.flatMap fun t => r.categories.map fun c => (t, c)

/-- The breaks of a request, and the state of the classification after it. -/
def classifyWith (w : Bench σ) : Except QueryError Breaks × Bench σ :=
  let (outcome, w) := match r.divideBy with
    | none => classifyValues source r [] r.pairs w
    | some c => classifyTypes source r c [] r.areaTypes w
  (outcome.map fun b => b.getD [], w)

/-- The breaks of a request, with a scratch of its own. -/
def classify (s : σ) : Except QueryError Breaks := (classifyWith source r ⟨{}, s⟩).1

end
end Choropleth
