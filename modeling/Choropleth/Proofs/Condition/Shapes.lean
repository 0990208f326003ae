import Mathlib.Data.List.Forall2
import Choropleth.Proofs.Condition.Denotes
import Choropleth.Condition.Sql
import Choropleth.Request.Table

/-!
# Query texts and the shapes of requests

The text of a condition has a place `?` for every value, and it depends on how many values a request
has on each axis and on the kind of its zone only. What the values are never shows in the text.

* `Restriction`, `Condition.restricted`: a release that is restricted step by step;
* `Restriction.SameShape`: two restrictions that differ in their values only;
* `Condition.count_sql`: a text has as many places as its clauses take values;
* `Condition.LooksLike`: two conditions with the same text;
* `query_text_hides_values`: conditions of one shape have one text.
-/

namespace Choropleth

/-! ### Restrictions of one shape -/

/-- One step in which the rows of a release are restricted. -/
inductive Restriction
  | areas (s : Selection)
  | categories (s : Selection)
  | categoriesIn (s : Selection) (tables : List String)
  | areaTypes (types : List AreaType)
  | zone (z : Option Zone)

namespace Condition

/-- The condition with a restriction more. -/
def restrict (q : Condition) : Restriction → Condition
  | .areas s => q.onAreas s
  | .categories s => q.onCategories s []
  | .categoriesIn s tables => q.onCategories s tables
  | .areaTypes types => q.onAreaTypes types
  | .zone z => q.onZone z

/-- The rows of a release under restrictions that are added one after another. -/
def restricted (v : Release) (steps : List Restriction) : Condition :=
  steps.foldl restrict (forRelease v)

example (r : TableRequest) : r.condition = restricted r.release
    [.areas r.areas, .areaTypes r.areaTypes, .zone r.zone, .categoriesIn r.categories r.tables] :=
  rfl

end Condition

/-- Two selections of as many codes and as many ranges. -/
structure Selection.SameSize (s t : Selection) : Prop where
  codes : s.codes.length = t.codes.length
  ranges : s.ranges.length = t.ranges.length

/-- Two zones of one kind; of two rings both have points or neither has. -/
inductive Zone.SameKind : Zone → Zone → Prop
  | box (a b : Box) : SameKind (.box a) (.box b)
  | disc (c d : Position) (m n : Float) : SameKind (.disc c m) (.disc d n)
  | ring {ps qs : List Position} (h : ps = [] ↔ qs = []) : SameKind (.ring ps) (.ring qs)

/-- Two restrictions that differ in their values only. -/
inductive Restriction.SameShape : Restriction → Restriction → Prop
  | areas {s t : Selection} (h : s.SameSize t) : SameShape (.areas s) (.areas t)
  | categories {s t : Selection} (h : s.SameSize t) : SameShape (.categories s) (.categories t)
  | categoriesIn {s t : Selection} (h : s.SameSize t) {ts us : List String}
      (hlen : ts.length = us.length) : SameShape (.categoriesIn s ts) (.categoriesIn t us)
  | areaTypes {ts us : List AreaType} (h : ts.length = us.length) :
      SameShape (.areaTypes ts) (.areaTypes us)
  | zone {z w : Option Zone} (h : Option.Rel Zone.SameKind z w) : SameShape (.zone z) (.zone w)

/-! ### Places -/

namespace Text

/-- A text of parts has the places of its parts if there is none in the separator. -/
theorem count_joinWith {c : Char} {sep : List Char} (h : c ∉ sep) (ps : List (List Char)) :
    (joinWith sep ps).count c = (ps.map (List.count c)).sum := by
  induction ps with
  | nil => rfl
  | cons p ps ih =>
    cases ps with
    | nil => simp [joinWith]
    | cons q qs =>
      rw [joinWith, List.count_append, List.count_append, List.count_eq_zero.2 h, ih,
        Nat.add_zero]
      exact List.sum_cons.symm

theorem count_joinStrings {c : Char} {sep : String} (h : c ∉ sep.toList) {α : Type}
    (f : α → String) (xs : List α) : (joinStrings sep (xs.map f)).toList.count c =
      (xs.map fun x => (f x).toList.count c).sum := by
  rw [joinStrings, String.toList_ofList, count_joinWith h, List.map_map, List.map_map]
  rfl

end Text

/-- The name of a column has no place. -/
theorem count_column (c : Column) : c.sql.toList.count '?' = 0 := by
  cases c <;> decide

namespace Test

theorem count_places (n : ℕ) : (places n).toList.count '?' = n := by
  have hsep : '?' ∉ ", ".toList := by decide
  have h := Text.count_joinStrings hsep (fun _ : Unit => "?") (List.replicate n ())
  have hone : "?".toList.count '?' = 1 := by decide
  simpa [places, hone] using h

/-- A test has as many places as it takes values. -/
theorem count_sql (t : Test) : t.sql.toList.count '?' = t.arity := by
  cases t with
  | holds c => exact count_column c
  | same c d =>
    show (c.sql ++ " = " ++ d.sql).toList.count '?' = 0
    simp only [String.toList_append, List.count_append, count_column]
    decide
  | equals c =>
    show (c.sql ++ " = ?").toList.count '?' = 1
    simp only [String.toList_append, List.count_append, count_column]
    decide
  | oneOf c n =>
    show (c.sql ++ " IN (" ++ places n ++ ")").toList.count '?' = n
    have hopen : " IN (".toList.count '?' = 0 := by decide
    have hclose : ")".toList.count '?' = 0 := by decide
    simp only [String.toList_append, List.count_append, count_column, count_places, hopen, hclose,
      Nat.zero_add, Nat.add_zero]
  | between c =>
    show (c.sql ++ " BETWEEN ? AND ?").toList.count '?' = 2
    simp only [String.toList_append, List.count_append, count_column]
    decide
  | startsWith c =>
    show ("starts_with(" ++ c.sql ++ ", ?)").toList.count '?' = 1
    simp only [String.toList_append, List.count_append, count_column]
    decide
  | atLeast c =>
    show (c.sql ++ " >= ?").toList.count '?' = 1
    simp only [String.toList_append, List.count_append, count_column]
    decide
  | atMost c =>
    show (c.sql ++ " <= ?").toList.count '?' = 1
    simp only [String.toList_append, List.count_append, count_column]
    decide
  | withinDistance =>
    show ("2 * " ++ earthRadiusText ++ _ ++ _ ++ _ ++ _ ++ _ : String).toList.count '?' = 4
    simp only [String.toList_append, List.count_append]
    decide +kernel
  | meetsRing =>
    show (_ ++ _ ++ _ : String).toList.count '?' = 1
    simp only [String.toList_append, List.count_append]
    decide +kernel

theorem arities_eq_sum (ts : List Test) : arities ts = (ts.map arity).sum := by
  induction ts with
  | nil => rfl
  | cons t ts ih => rw [arities, ih, List.map_cons, List.sum_cons]

end Test

namespace Clause

/-- A clause has as many places as it takes values. -/
theorem count_sql (c : Clause) : c.sql.toList.count '?' = c.arity := by
  have hsum (ts : List Test) :
      (ts.map fun t => t.sql.toList.count '?').sum = Test.arities ts := by
    rw [Test.arities_eq_sum]
    exact congrArg List.sum (List.map_congr_left fun t _ => t.count_sql)
  cases c with
  | all ts => rw [sql, Text.count_joinStrings (by decide), hsum, arity, tests]
  | any ts =>
    have hopen : "(".toList.count '?' = 0 := by decide
    have hclose : ")".toList.count '?' = 0 := by decide
    rw [sql, String.toList_append, String.toList_append, List.count_append, List.count_append,
      hopen, hclose, Text.count_joinStrings (by decide), hsum, arity, tests, Nat.zero_add,
      Nat.add_zero]

theorem arities_eq_sum (cs : List Clause) : arities cs = (cs.map arity).sum := by
  induction cs with
  | nil => rfl
  | cons c cs ih => rw [arities, ih, List.map_cons, List.sum_cons]

end Clause

namespace Condition

/-- **A text has as many places as its clauses take values.** -/
theorem count_sql (q : Condition) : q.sql.toList.count '?' = Clause.arities q.clauses := by
  rw [sql, Text.count_joinStrings (by decide), Clause.arities_eq_sum]
  exact congrArg List.sum (List.map_congr_left fun c _ => c.count_sql)

theorem IsBound.count_sql {q : Condition} (h : q.IsBound) :
    q.sql.toList.count '?' = q.values.length :=
  (Condition.count_sql q).trans h.symm

/-! ### Every value has a place -/

theorem isBound_forRelease (v : Release) : (forRelease v).IsBound := rfl

theorem IsBound.onAxis {q : Condition} (h : q.IsBound) (c : Column) (s : Selection)
    (beginnings : List String) : (q.onAxis c s beginnings).IsBound := by
  unfold Condition.onAxis
  split
  · exact h
  · exact h.add (length_axisValues c s beginnings)

theorem IsBound.onAreaTypes {q : Condition} (h : q.IsBound) (types : List AreaType) :
    (q.onAreaTypes types).IsBound := by
  unfold Condition.onAreaTypes
  split
  · exact h
  · exact h.add (List.length_map _)

theorem IsBound.onEnvelope {q : Condition} (h : q.IsBound) (b : Option Box) :
    (q.onEnvelope b).IsBound := by
  cases b with
  | none => exact h
  | some b => exact h.add rfl

theorem IsBound.onRing {q : Condition} (h : q.IsBound) (t : Option String) :
    (q.onRing t).IsBound := by
  cases t with
  | none => exact h
  | some t => exact h.add rfl

theorem IsBound.onZone {q : Condition} (h : q.IsBound) (z : Option Zone) :
    (q.onZone z).IsBound := by
  cases z with
  | none => exact h
  | some z =>
    have hvalid : (q.add (.one (.holds .areaValid)) []).IsBound := h.add rfl
    cases z with
    | box b => exact hvalid.onEnvelope (some b)
    | disc c m => exact hvalid.add rfl
    | ring ps => exact (hvalid.onEnvelope _).onRing _

/-- A restriction brings a place for every value of its own. -/
theorem IsBound.restrict {q : Condition} (h : q.IsBound) (step : Restriction) :
    (q.restrict step).IsBound := by
  cases step with
  | areas s => exact h.onAxis _ _ _
  | categories s => exact h.onAxis _ _ _
  | categoriesIn s tables => exact h.onAxis _ _ _
  | areaTypes types => exact h.onAreaTypes types
  | zone z => exact h.onZone z

theorem isBound_restricted (v : Release) (steps : List Restriction) :
    (restricted v steps).IsBound :=
  List.foldlRecOn steps restrict (isBound_forRelease v) fun _ h step _ => h.restrict step

theorem isBound_forValues (v : Release) (t : AreaType) (category : String) :
    (forValues v t category).IsBound := rfl

/-! ### Conditions with one text -/

/-- The conditions have the same clauses, and boundaries are needed for both or for neither. -/
structure LooksLike (q p : Condition) : Prop where
  clauses : q.clauses = p.clauses
  needsBoundaries : q.needsBoundaries = p.needsBoundaries

theorem LooksLike.sql_eq {q p : Condition} (h : q.LooksLike p) : q.sql = p.sql := by
  rw [sql, sql, h.clauses]

theorem LooksLike.add {q p : Condition} (h : q.LooksLike p) (c : Clause) (vs ws : List Datum) :
    (q.add c vs).LooksLike (p.add c ws) :=
  ⟨congrArg (· ++ [c]) h.clauses, h.needsBoundaries⟩

theorem looksLike_forRelease (v w : Release) : (forRelease v).LooksLike (forRelease w) := ⟨rfl, rfl⟩

theorem isEmpty_congr {α β : Type} {xs : List α} {ys : List β} (h : xs.length = ys.length) :
    xs.isEmpty = ys.isEmpty := by
  rw [Bool.eq_iff_iff, List.isEmpty_iff_length_eq_zero, List.isEmpty_iff_length_eq_zero, h]

/-- The tests of an axis depend on the numbers of codes, ranges and beginnings. -/
theorem axisTests_congr (c : Column) {s t : Selection} (h : s.SameSize t) {bs ds : List String}
    (hlen : bs.length = ds.length) : axisTests c s bs = axisTests c t ds := by
  simp only [axisTests, isEmpty_congr h.codes, h.codes, List.map_const', h.ranges, hlen]

theorem LooksLike.onAxis {q p : Condition} (h : q.LooksLike p) (c : Column) {s t : Selection}
    (hs : s.SameSize t) {bs ds : List String} (hlen : bs.length = ds.length) :
    (q.onAxis c s bs).LooksLike (p.onAxis c t ds) := by
  have hopen : s.isEmpty = t.isEmpty := by
    rw [Selection.isEmpty, Selection.isEmpty, isEmpty_congr hs.codes, isEmpty_congr hs.ranges]
  unfold Condition.onAxis
  rw [hopen, isEmpty_congr hlen, axisTests_congr c hs hlen]
  split
  · exact h
  · exact h.add _ _ _

theorem LooksLike.onAreaTypes {q p : Condition} (h : q.LooksLike p) {ts us : List AreaType}
    (hlen : ts.length = us.length) : (q.onAreaTypes ts).LooksLike (p.onAreaTypes us) := by
  unfold Condition.onAreaTypes
  rw [isEmpty_congr hlen, hlen]
  split
  · exact h
  · exact h.add _ _ _

theorem LooksLike.onEnvelope {q p : Condition} (h : q.LooksLike p) {a b : Option Box}
    (hab : a = none ↔ b = none) : (q.onEnvelope a).LooksLike (p.onEnvelope b) := by
  cases a with
  | none =>
    rw [hab.1 rfl]
    exact h
  | some a =>
    cases b with
    | none => cases hab.2 rfl
    | some b => exact h.add _ _ _

theorem envelope?_ring_eq_none {ps : List Position} :
    (Zone.ring ps).envelope? = none ↔ ps = [] := by
  cases ps with
  | nil => exact iff_of_true rfl rfl
  | cons p ps => exact iff_of_false (Option.some_ne_none _) (List.cons_ne_nil p ps)

theorem LooksLike.onZone {q p : Condition} (h : q.LooksLike p) {z w : Option Zone}
    (hzw : Option.Rel Zone.SameKind z w) : (q.onZone z).LooksLike (p.onZone w) := by
  cases hzw with
  | none => exact h
  | some hzw =>
    have hvalid := h.add (.one (.holds .areaValid)) [] []
    cases hzw with
    | box a b => exact hvalid.add _ _ _
    | disc c d m n => exact hvalid.add _ _ _
    | ring hpq =>
      have henvelope := hvalid.onEnvelope
        ((envelope?_ring_eq_none.trans hpq).trans envelope?_ring_eq_none.symm)
      exact ⟨congrArg (· ++ [Clause.one .meetsRing]) henvelope.clauses, rfl⟩

/-- Restrictions of one shape add the same text. -/
theorem LooksLike.restrict {q p : Condition} (h : q.LooksLike p) {step step' : Restriction}
    (hs : step.SameShape step') : (q.restrict step).LooksLike (p.restrict step') := by
  cases hs with
  | areas hs => exact h.onAxis _ hs rfl
  | categories hs => exact h.onAxis _ hs rfl
  | categoriesIn hs hlen => exact h.onAxis _ hs hlen
  | areaTypes hlen => exact h.onAreaTypes hlen
  | zone hzw => exact h.onZone hzw

theorem LooksLike.restricted {steps steps' : List Restriction}
    (hs : List.Forall₂ Restriction.SameShape steps steps') (v w : Release) :
    (restricted v steps).LooksLike (restricted w steps') := by
  have hfold {q p : Condition} (h : q.LooksLike p) :
      (steps.foldl Condition.restrict q).LooksLike (steps'.foldl Condition.restrict p) := by
    induction hs generalizing q p with
    | nil => exact h
    | cons hstep _ ih => exact ih (h.restrict hstep)
  exact hfold (looksLike_forRelease v w)

theorem looksLike_forValues (v w : Release) (t u : AreaType) (c d : String) :
    (forValues v t c).LooksLike (forValues w u d) := ⟨rfl, rfl⟩

end Condition

/-- **Values stay out of query texts.** Whatever restrictions are added to a release, the text has
one place for every value; restrictions of one shape, with any other release and any other values,
give the same text and need boundaries alike. The same holds for the values of one category. -/
theorem query_text_hides_values (v w : Release) {steps steps' : List Restriction}
    (h : List.Forall₂ Restriction.SameShape steps steps') (t u : AreaType) (c d : String) :
    (∀ more : List Restriction, (Condition.restricted v more).sql.toList.count '?' =
        (Condition.restricted v more).values.length) ∧
      (Condition.restricted v steps).sql = (Condition.restricted w steps').sql ∧
      (Condition.restricted v steps).needsBoundaries =
        (Condition.restricted w steps').needsBoundaries ∧
      (Condition.forValues v t c).sql.toList.count '?' =
        (Condition.forValues v t c).values.length ∧
      (Condition.forValues v t c).sql = (Condition.forValues w u d).sql ∧
      (Condition.forValues v t c).needsBoundaries =
        (Condition.forValues w u d).needsBoundaries := by
  have hlike := Condition.LooksLike.restricted h v w
  have hvalues := Condition.looksLike_forValues v w t u c d
  exact ⟨fun more => (Condition.isBound_restricted v more).count_sql, hlike.sql_eq,
    hlike.needsBoundaries, (Condition.isBound_forValues v t c).count_sql, hvalues.sql_eq,
    hvalues.needsBoundaries⟩

/-- A quote and a place in a code leave the text as it is. -/
theorem query_text_hides_values_of_quote :
    List.Forall₂ Restriction.SameShape [.areas (.ofCodes ["E01"]), .zone (some (.ring []))]
        [.areas (.ofCodes ["' OR ? --"]), .zone (some (.ring []))] ∧
      (Condition.restricted {} [.areas (.ofCodes ["E01"]), .zone (some (.ring []))]).sql =
        (Condition.restricted ⟨2021, "?"⟩
          [.areas (.ofCodes ["' OR ? --"]), .zone (some (.ring []))]).sql := by
  have h : List.Forall₂ Restriction.SameShape
      [.areas (.ofCodes ["E01"]), .zone (some (.ring []))]
      [.areas (.ofCodes ["' OR ? --"]), .zone (some (.ring []))] :=
    .cons (.areas ⟨rfl, rfl⟩) (.cons (.zone (.some (.ring Iff.rfl))) .nil)
  exact ⟨h, (query_text_hides_values {} ⟨2021, "?"⟩ h .country .country "" "").2.1⟩

end Choropleth
