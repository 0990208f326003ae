import Choropleth.Breaks.Classify
import Choropleth.Proofs.Breaks.Recording

/-!
# Metric sets

A classification loads metric sets one after another, the denominators of an area type before its
numerators, and ends at the first one that fails or has no data.

* `ratios`, `pushRatios_cases`: the ratios of a metric set;
* `MetricSet`: what is loaded for a category in an area type;
* `Source.metricSets`: the metric sets of a request in order;
* `MetricSet.verdict`: what becomes of a metric set;
* `classifyWith_eq_walk`: a classification is a walk along metric sets, whatever the scratch holds
  at the start.
-/

namespace Choropleth

/-- What becomes of a pair: its classes, nothing for want of data, or an error. -/
abbrev Verdict := Except QueryError (Option ClassBounds)

/-- The classes that a verdict gives, if any. -/
def Verdict.bounds (v : Verdict) : ClassBounds :=
  match v with
  | .ok (some x) => x
  | _ => ⟨[], 0, 0⟩

/-- The classes of the values of a category in an area type. -/
def classBounds (values : List Float) (k : ℕ) (t : AreaType) (category : String) :
    Except QueryError ClassBounds :=
  match upperBounds values k, extremes? values with
  | .error e, _ => .error (.clustering t.name category e)
  | .ok _, none => .error (.clustering t.name category .noValues)
  | .ok bounds, some (least, greatest) => .ok ⟨bounds, least, greatest⟩

theorem recordClasses_eq (b : Breaks) (values : List Float) (k : ℕ) (t : AreaType)
    (category : String) : recordClasses b values k t category =
      (classBounds values k t category).map (b.recordBounds (t, category)) := by
  unfold recordClasses classBounds
  cases upperBounds values k with
  | error e => rfl
  | ok bounds =>
    cases extremes? values <;> rfl

/-- The ratios of the values of areas to their denominators. -/
def ratios (t : AreaType) (category : String) (numerator : Ledger) :
    Ledger → Except QueryError (List Float)
  | [] => .ok []
  | (area, d) :: r =>
    if d == 0 then .error (.zeroDenominator t.name category area)
    else
      match numerator.get? area with
      | none => .error (.partialContent t.name category (some area))
      | some n => (ratios t category numerator r).map fun xs => n / d :: xs

/-- The ratios are put behind values one by one, unless an area has none. -/
theorem pushRatios_cases (t : AreaType) (category : String) (numerator denominator : Ledger)
    (values : List Float) :
    (∃ xs, ratios t category numerator denominator = .ok xs ∧
      pushRatios t category numerator denominator values = (none, values ++ xs)) ∨
    ∃ e pushed, ratios t category numerator denominator = .error e ∧
      pushRatios t category numerator denominator values = (some e, pushed) := by
  induction denominator generalizing values with
  | nil => exact .inl ⟨[], rfl, by rw [List.append_nil]; rfl⟩
  | cons p denominator ih =>
    obtain ⟨area, d⟩ := p
    rw [ratios, pushRatios]
    by_cases hd : (d == 0) = true
    · rw [if_pos hd, if_pos hd]
      exact .inr ⟨_, values, rfl, rfl⟩
    rw [if_neg hd, if_neg hd]
    cases numerator.get? area with
    | none => exact .inr ⟨_, values, rfl, rfl⟩
    | some n =>
      rcases ih (values ++ [n / d]) with ⟨xs, hratios, hpush⟩ | ⟨e, pushed, hratios, hpush⟩
      · refine .inl ⟨n / d :: xs, by rw [hratios]; rfl, ?_⟩
        rw [List.append_cons]
        exact hpush
      · exact .inr ⟨e, pushed, by rw [hratios]; rfl, hpush⟩

/-- The values of a category in the areas of a type, with the denominators that divide them, if
any. -/
structure MetricSet where
  areaType : AreaType
  category : String
  numerator : Ledger
  denominator : Option Ledger

namespace MetricSet

/-- The area type and the category. -/
def pair (m : MetricSet) : AreaType × String := (m.areaType, m.category)

/-- What becomes of a metric set that is to be divided into `k` classes. -/
def verdict (k : ℕ) (m : MetricSet) : Verdict :=
  match m.denominator with
  | none =>
    if m.numerator.isEmpty then .ok none
    else (classBounds (Ledger.values m.numerator) k m.areaType m.category).map some
  | some denominator =>
    if denominator.isEmpty then .ok none
    else if m.numerator.isEmpty ∨ m.numerator.length ≠ denominator.length then
      .error (.partialContent m.areaType.name m.category none)
    else
      match ratios m.areaType m.category m.numerator denominator with
      | .error e => .error e
      | .ok values => (classBounds values k m.areaType m.category).map some

/-- Walks along metric sets and records their classes, up to the first set that has none. -/
def walk (k : ℕ) (b : Breaks) : List MetricSet → Outcome
  | [] => .ok (some b)
  | m :: ms =>
    match m.verdict k with
    | .error e => .error e
    | .ok none => .ok none
    | .ok (some x) => walk k (b.recordBounds m.pair x) ms

theorem walk_append (k : ℕ) (b : Breaks) (ms ns : List MetricSet) : walk k b (ms ++ ns) =
    match walk k b ms with
    | .error e => .error e
    | .ok none => .ok none
    | .ok (some b) => walk k b ns := by
  induction ms generalizing b with
  | nil => rfl
  | cons m ms ih =>
    rw [List.cons_append, walk, walk]
    cases m.verdict k with
    | error e => rfl
    | ok x =>
      cases x with
      | none => rfl
      | some x => exact ih _

end MetricSet

namespace Source

variable {σ : Type} (source : Source σ) (r : BreaksRequest)

/-- Loads the metric sets of categories in an area type. -/
def loadCategories (t : AreaType) (denominator : Option Ledger) :
    List String → σ → List MetricSet × σ
  | [], s => ([], s)
  | c :: cs, s =>
    let (loaded, s) := source.load r.release t c [] s
    let (sets, s) := loadCategories t denominator cs s
    (⟨t, c, loaded.ledger, denominator⟩ :: sets, s)

/-- Loads the denominators of an area type, if the request has any. -/
def loadDivisors (t : AreaType) (s : σ) : Option Ledger × σ :=
  match r.divideBy with
  | none => (none, s)
  | some d =>
    let (loaded, s) := source.load r.release t d [] s
    (some loaded.ledger, s)

/-- The metric sets of area types: the denominators of a type are loaded first, then its
categories. -/
def loadTypes : List AreaType → σ → List MetricSet
  | [], _ => []
  | t :: ts, s =>
    let (denominator, s) := source.loadDivisors r t s
    let (sets, s) := source.loadCategories r t denominator r.categories s
    sets ++ loadTypes ts s

/-- The metric sets of a request in the order in which they are loaded. -/
def metricSets (s : σ) : List MetricSet := source.loadTypes r r.areaTypes s

/-- The source never fails. -/
structure NeverFails : Prop where
  fault_eq : ∀ v t c s, (source.load v t c [] s).1.fault = none

theorem map_pair_loadCategories (t : AreaType) (denominator : Option Ledger) (cs : List String)
    (s : σ) : (source.loadCategories r t denominator cs s).1.map MetricSet.pair =
      cs.map fun c => (t, c) := by
  induction cs generalizing s with
  | nil => rfl
  | cons c cs ih => exact congrArg ((t, c) :: ·) (ih _)

/-- The metric sets come area type by area type and, within one, category by category. -/
theorem map_pair_metricSets (s : σ) :
    (source.metricSets r s).map MetricSet.pair = r.pairs := by
  rw [metricSets, BreaksRequest.pairs]
  induction r.areaTypes generalizing s with
  | nil => rfl
  | cons t ts ih =>
    rw [loadTypes, List.flatMap_cons, List.map_append]
    exact congrArg₂ (· ++ ·) (source.map_pair_loadCategories r t _ _ _) (ih _)

end Source

section

variable {σ : Type} {source : Source σ} (h : source.NeverFails) (r : BreaksRequest)

include h

theorem loadNumerator_eq (t : AreaType) (category : String) (w : Bench σ) :
    loadNumerator source r t category w =
      (none, ⟨{ w.scratch with
          numerator := (source.load r.release t category [] w.source).1.ledger },
        (source.load r.release t category [] w.source).2⟩) :=
  Prod.ext (h.fault_eq r.release t category w.source) rfl

theorem loadDenominator_eq (t : AreaType) (category : String) (w : Bench σ) :
    loadDenominator source r t category w =
      (none, ⟨{ w.scratch with
          denominator := (source.load r.release t category [] w.source).1.ledger },
        (source.load r.release t category [] w.source).2⟩) :=
  Prod.ext (h.fault_eq r.release t category w.source) rfl

theorem classifyValues_append (t : AreaType) {ps : List (AreaType × String)}
    {later : σ → List MetricSet}
    (hlater : ∀ b w, (classifyValues source r b ps w).1 =
      MetricSet.walk r.classes b (later w.source)) (b : Breaks) (cs : List String) (w : Bench σ) :
    (classifyValues source r b (cs.map (fun c => (t, c)) ++ ps) w).1 =
      MetricSet.walk r.classes b ((source.loadCategories r t none cs w.source).1 ++
        later (source.loadCategories r t none cs w.source).2) := by
  induction cs generalizing b w with
  | nil => exact hlater b w
  | cons c cs ih =>
    simp only [List.map_cons, List.cons_append, classifyValues, loadNumerator_eq h,
      Source.loadCategories, MetricSet.walk, MetricSet.verdict]
    by_cases he : (source.load r.release t c [] w.source).1.ledger.isEmpty = true
    · rw [if_pos he, if_pos he]
    · rw [if_neg he, if_neg he]
      simp only [Bench.withValues, List.nil_append, recordClasses_eq]
      cases classBounds (Ledger.values (source.load r.release t c [] w.source).1.ledger) r.classes
        t c with
      | error e => rfl
      | ok x => exact ih _ _

theorem classifyValues_eq (hr : r.divideBy = none) (b : Breaks) (ts : List AreaType)
    (w : Bench σ) :
    (classifyValues source r b (ts.flatMap fun t => r.categories.map fun c => (t, c)) w).1 =
      MetricSet.walk r.classes b (source.loadTypes r ts w.source) := by
  induction ts generalizing b w with
  | nil => rfl
  | cons t ts ih =>
    rw [List.flatMap_cons, classifyValues_append h r t ih, Source.loadTypes, Source.loadDivisors,
      hr]

theorem classifyRatios_eq (t : AreaType) {denominator : Ledger} (hd : denominator ≠ [])
    (b : Breaks) (cs : List String) (w : Bench σ) (hw : w.scratch.denominator = denominator) :
    (classifyRatios source r t b cs w).1.map some =
        MetricSet.walk r.classes b (source.loadCategories r t denominator cs w.source).1 ∧
      ∀ b', (classifyRatios source r t b cs w).1 = .ok b' →
        (classifyRatios source r t b cs w).2.source =
          (source.loadCategories r t denominator cs w.source).2 := by
  induction cs generalizing b w with
  | nil => exact ⟨rfl, fun _ _ => rfl⟩
  | cons c cs ih =>
    have hne : ¬denominator.isEmpty = true := by simpa using hd
    simp only [classifyRatios, loadNumerator_eq h, Source.loadCategories, MetricSet.walk,
      MetricSet.verdict, hw, if_neg hne]
    by_cases he : (source.load r.release t c [] w.source).1.ledger.isEmpty = true ∨
        (source.load r.release t c [] w.source).1.ledger.length ≠ denominator.length
    · rw [if_pos he, if_pos he]
      exact ⟨rfl, by simp⟩
    · rw [if_neg he, if_neg he]
      rcases pushRatios_cases t c (source.load r.release t c [] w.source).1.ledger denominator []
        with ⟨values, hratios, hpush⟩ | ⟨e, pushed, hratios, hpush⟩
      · simp only [Bench.withValues, hpush, hratios, List.nil_append, recordClasses_eq]
        cases classBounds values r.classes t c with
        | error e => exact ⟨rfl, fun _ hb => by cases hb⟩
        | ok x => exact ih _ _ rfl
      · simp only [Bench.withValues, hpush, hratios]
        exact ⟨rfl, fun _ hb => by cases hb⟩

theorem classifyTypes_eq {d : String} (hr : r.divideBy = some d) (hc : r.categories ≠ [])
    (b : Breaks) (ts : List AreaType) (w : Bench σ) :
    (classifyTypes source r d b ts w).1 =
      MetricSet.walk r.classes b (source.loadTypes r ts w.source) := by
  induction ts generalizing b w with
  | nil => rfl
  | cons t ts ih =>
    simp only [classifyTypes, loadDenominator_eq h, Source.loadTypes, Source.loadDivisors, hr]
    rw [MetricSet.walk_append]
    by_cases he : (source.load r.release t d [] w.source).1.ledger.isEmpty = true
    · -- the first metric set of the area type ends the walk as the denominators end the loop
      obtain ⟨c, cs, hcs⟩ := List.exists_cons_of_ne_nil hc
      simp only [hcs, Source.loadCategories, MetricSet.walk, MetricSet.verdict, if_pos he]
    · obtain ⟨hratios, hsource⟩ := classifyRatios_eq h r t
        (show (source.load r.release t d [] w.source).1.ledger ≠ [] by simpa using he) b
        r.categories ⟨{ w.scratch with denominator := _ },
          (source.load r.release t d [] w.source).2⟩ rfl
      rw [if_neg he, ← hratios]
      generalize classifyRatios source r t b r.categories _ = result at hsource ⊢
      obtain ⟨result, w'⟩ := result
      cases result with
      | error e => rfl
      | ok b' =>
        rw [← hsource b' rfl]
        exact ih b' w'

/-- Without categories there is nothing to record. -/
theorem classifyTypes_of_no_categories {d : String} (hc : r.categories = []) (ts : List AreaType)
    (w : Bench σ) :
    (classifyTypes source r d [] ts w).1.map (fun b => b.getD []) = .ok [] := by
  induction ts generalizing w with
  | nil => rfl
  | cons t ts ih =>
    simp only [classifyTypes, loadDenominator_eq h, hc, classifyRatios]
    split
    · rfl
    · exact ih _

/-- **A classification is a walk along the metric sets of its request.** -/
theorem classifyWith_eq_walk (w : Bench σ) : (classifyWith source r w).1 =
    (MetricSet.walk r.classes [] (source.metricSets r w.source)).map fun b => b.getD [] := by
  cases hr : r.divideBy with
  | none =>
    simp only [classifyWith, hr]
    rw [BreaksRequest.pairs, classifyValues_eq h r hr, Source.metricSets]
  | some d =>
    simp only [classifyWith, hr]
    by_cases hc : r.categories = []
    · have hsets : source.metricSets r w.source = [] := by
        rw [← List.map_eq_nil_iff (f := MetricSet.pair), source.map_pair_metricSets]
        simp [BreaksRequest.pairs, hc]
      rw [classifyTypes_of_no_categories h r hc, hsets]
      rfl
    · rw [classifyTypes_eq h r hr hc, Source.metricSets]

end
end Choropleth
