import Choropleth.Proofs.Breaks.MetricSets

/-!
# Classification of steady sources

With a source that always loads the same values, what becomes of a pair of an area type and a
category depends on the pair only. A classification is a walk along the pairs that ends at the first
one that fails or has no data.

* `Source.Steady`: a source that never fails and always loads the same values;
* `BreaksRequest.verdict`: what becomes of a pair;
* `walk`: the walk along the pairs;
* `classifyWith_eq`: a classification is a walk, whatever the scratch holds at the start.
-/

namespace Choropleth

/-- The source never fails, and what it loads into an empty ledger does not depend on its state. -/
structure Source.Steady {σ : Type} (source : Source σ)
    (rows : Release → AreaType → String → Ledger) : Prop where
  load_eq : ∀ v t c s, (source.load v t c [] s).1 = ⟨rows v t c, none⟩

/-- What becomes of a pair if the source loads the given rows. -/
def BreaksRequest.verdict (r : BreaksRequest) (rows : Release → AreaType → String → Ledger)
    (p : AreaType × String) : Verdict :=
  let numerator := rows r.release p.1 p.2
  match r.divideBy with
  | none =>
    if numerator.isEmpty then .ok none
    else (classBounds (Ledger.values numerator) r.classes p.1 p.2).map some
  | some d =>
    let denominator := rows r.release p.1 d
    if denominator.isEmpty then .ok none
    else if numerator.isEmpty ∨ numerator.length ≠ denominator.length then
      .error (.partialContent p.1.name p.2 none)
    else
      match ratios p.1 p.2 numerator denominator with
      | .error e => .error e
      | .ok values => (classBounds values r.classes p.1 p.2).map some

/-- Walks along pairs and records their classes, up to the first pair that has none. -/
def walk (verdict : AreaType × String → Verdict) (b : Breaks) : List (AreaType × String) → Outcome
  | [] => .ok (some b)
  | p :: ps =>
    match verdict p with
    | .error e => .error e
    | .ok none => .ok none
    | .ok (some x) => walk verdict (b.recordBounds p x) ps

/-- The metric set of a pair if the source loads the given rows. -/
def BreaksRequest.metricSet (r : BreaksRequest) (rows : Release → AreaType → String → Ledger)
    (p : AreaType × String) : MetricSet :=
  ⟨p.1, p.2, rows r.release p.1 p.2, r.divideBy.map fun d => rows r.release p.1 d⟩

theorem verdict_metricSet (r : BreaksRequest) (rows : Release → AreaType → String → Ledger)
    (p : AreaType × String) : (r.metricSet rows p).verdict r.classes = r.verdict rows p := by
  rw [MetricSet.verdict, BreaksRequest.verdict, BreaksRequest.metricSet]
  cases r.divideBy <;> rfl

theorem walk_metricSets (r : BreaksRequest) (rows : Release → AreaType → String → Ledger)
    (b : Breaks) (ps : List (AreaType × String)) :
    MetricSet.walk r.classes b (ps.map (r.metricSet rows)) = walk (r.verdict rows) b ps := by
  induction ps generalizing b with
  | nil => rfl
  | cons p ps ih =>
    rw [List.map_cons, MetricSet.walk, walk, verdict_metricSet]
    cases r.verdict rows p with
    | error e => rfl
    | ok x =>
      cases x with
      | none => rfl
      | some x => exact ih _

section

variable {σ : Type} {source : Source σ} {rows : Release → AreaType → String → Ledger}
  (h : source.Steady rows) (r : BreaksRequest)

include h

theorem Source.Steady.neverFails : source.NeverFails :=
  ⟨fun v t c s => congrArg Loaded.fault (h.load_eq v t c s)⟩

theorem Source.Steady.ledger_eq (v : Release) (t : AreaType) (c : String) (s : σ) :
    (source.load v t c [] s).1.ledger = rows v t c :=
  congrArg Loaded.ledger (h.load_eq v t c s)

theorem Source.Steady.loadCategories_eq (t : AreaType) (denominator : Option Ledger)
    (cs : List String) (s : σ) : (source.loadCategories r t denominator cs s).1 =
      cs.map fun c => ⟨t, c, rows r.release t c, denominator⟩ := by
  induction cs generalizing s with
  | nil => rfl
  | cons c cs ih => simp only [Source.loadCategories, ih, h.ledger_eq, List.map_cons]

/-- The metric sets of a steady source are those of the pairs. -/
theorem Source.Steady.metricSets_eq (s : σ) :
    source.metricSets r s = r.pairs.map (r.metricSet rows) := by
  have hdivisors (t : AreaType) (s : σ) : (source.loadDivisors r t s).1 =
      r.divideBy.map fun d => rows r.release t d := by
    rw [Source.loadDivisors]
    cases r.divideBy with
    | none => rfl
    | some d => exact congrArg some (h.ledger_eq ..)
  rw [Source.metricSets, BreaksRequest.pairs]
  induction r.areaTypes generalizing s with
  | nil => rfl
  | cons t ts ih =>
    rw [List.flatMap_cons, List.map_append, ← ih]
    simp only [Source.loadTypes, h.loadCategories_eq, hdivisors, List.map_map]
    rfl

/-- **A classification is a walk along the pairs of its request.** -/
theorem classifyWith_eq (w : Bench σ) : (classifyWith source r w).1 =
    (walk (r.verdict rows) [] r.pairs).map fun b => b.getD [] := by
  rw [classifyWith_eq_walk h.neverFails, h.metricSets_eq, walk_metricSets]

end
end Choropleth
