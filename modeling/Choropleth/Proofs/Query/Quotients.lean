import Choropleth.Proofs.Query.Columns
import Choropleth.Proofs.Query.Tables

/-!
# Tables of quotients

Dividing the observations before they are taken in comes to the same as dividing the cells of the
table afterwards: rows, columns and places of cells depend on areas and categories only, and all
observations of an area are divided by the same denominator, so that the last value of a cell
becomes the last quotient.

* `cells_fst_ofObservations_map`: observations with other values make the same places;
* `lastValue?_map_quotient`: the last quotient is that of the last value;
* `IsQuotientTable`, `isQuotientTable_ofObservations`: the table of quotients;
* `Ledger.get?_foldl_record`: a ledger holds the last value of every area;
* `streams_obey_ceiling`: tables and ledgers are taken in under their ceiling, and so made.
-/

namespace Choropleth

variable {w : Option (Ledger × String)}

theorem area_quotient (o : Observation) : (quotient w o).area = o.area := by
  cases w <;> rfl

theorem category_quotient (o : Observation) : (quotient w o).category = o.category := by
  cases w <;> rfl

namespace Crosstab

/-! ### Rows, columns and places of cells -/

/-- One observation more takes the same place in tables that have the same ones. -/
theorem cells_fst_insert {t u : Crosstab} {o p : Observation} (hareas : t.areas = u.areas)
    (hcategories : t.categories = u.categories)
    (hcells : t.cells.map Prod.fst = u.cells.map Prod.fst) (ha : o.area = p.area)
    (hc : o.category = p.category) :
    (t.insert o).cells.map Prod.fst = (u.insert p).cells.map Prod.fst := by
  rw [cells_insert, cells_insert, Keyed.keys_put, Keyed.keys_put, hareas, hcategories, hcells, ha,
    hc]

/-- The places of the cells do not depend on the values. -/
theorem cells_fst_ofObservations_map {f : Observation → Observation}
    (ha : ∀ o, (f o).area = o.area) (hc : ∀ o, (f o).category = o.category)
    (os : List Observation) :
    let t := ofObservations (os.map f)
    let u := ofObservations os
    t.areas = u.areas ∧ t.categories = u.categories ∧
      t.cells.map Prod.fst = u.cells.map Prod.fst := by
  induction os using List.reverseRecOn with
  | nil => exact ⟨rfl, rfl, rfl⟩
  | append_singleton os o ih =>
    obtain ⟨hareas, hcategories, hcells⟩ := ih
    dsimp only
    rw [List.map_append, List.map_singleton, ofObservations_append_singleton,
      ofObservations_append_singleton]
    refine ⟨?_, ?_, cells_fst_insert hareas hcategories hcells (ha o) (hc o)⟩
    · rw [areas_insert, areas_insert, hareas, ha]
    · rw [categories_insert, categories_insert, hcategories, hc]

/-! ### Last values -/

/-- A value of an area, divided by its denominator if there are denominators. -/
def quotient? (w : Option (Ledger × String)) (area : String) (x : Float) : Option Float :=
  match w with
  | none => some x
  | some (denominators, _) => (denominators.get? area).map (x / ·)

theorem quotient?_eq {o : Observation} (h : ∀ e, ¬Fails w (.ok o) e) :
    quotient? w o.area o.value = some (quotient w o).value := by
  cases w with
  | none => rfl
  | some w =>
    obtain ⟨y, hy, -⟩ := exists_denominator h
    rw [quotient?, hy, quotient, hy]
    rfl

/-- The last quotient is the quotient of the last value. -/
theorem lastValue?_map_quotient {os : List Observation} (h : ∀ o ∈ os, ∀ e, ¬Fails w (.ok o) e)
    (area category : String) : lastValue? (os.map (quotient w)) area category =
      (lastValue? os area category).bind (quotient? w area) := by
  induction os using List.reverseRecOn with
  | nil => rfl
  | append_singleton os o ih =>
    rw [List.map_append, List.map_singleton, lastValue?_append_singleton,
      lastValue?_append_singleton, area_quotient, category_quotient]
    by_cases hcell : o.area = area ∧ o.category = category
    · rw [if_pos hcell, if_pos hcell, Option.bind_some, ← hcell.1, quotient?_eq (h o (by simp))]
    · rw [if_neg hcell, if_neg hcell]
      exact ih fun o ho => h o (List.mem_append_left _ ho)

/-- The table has the rows, columns and cells of that of the undivided observations, and a cell
holds the last value of its area and category, divided by the denominator of the area. -/
structure IsQuotientTable (w : Option (Ledger × String)) (os : List Observation) (t : Crosstab) :
    Prop where
  areas_eq : t.areas = (ofObservations os).areas
  categories_eq : t.categories = (ofObservations os).categories
  cells_fst_eq : t.cells.map Prod.fst = (ofObservations os).cells.map Prod.fst
  cell_eq : ∀ area category,
    t.cell? area category = (lastValue? os area category).bind (quotient? w area)

/-- **Quotients make the table of the observations, with every cell divided.** -/
theorem isQuotientTable_ofObservations {os : List Observation}
    (h : ∀ o ∈ os, ∀ e, ¬Fails w (.ok o) e) :
    IsQuotientTable w os (ofObservations (os.map (quotient w))) := by
  obtain ⟨hareas, hcategories, hcells⟩ :=
    cells_fst_ofObservations_map (area_quotient (w := w)) category_quotient os
  refine ⟨hareas, hcategories, hcells, fun area category => ?_⟩
  rw [cell?_ofObservations, lastValue?_map_quotient h]

end Crosstab

/-! ### Ledgers -/

namespace Ledger

/-- The value that comes last for an area. -/
def lastValue? (os : List Observation) (area : String) : Option Float :=
  (os.reverse.find? fun o => o.area = area).map (·.value)

theorem lastValue?_append_singleton (os : List Observation) (o : Observation) (area : String) :
    lastValue? (os ++ [o]) area = if o.area = area then some o.value else lastValue? os area := by
  rw [lastValue?, Crosstab.find?_reverse_append_singleton]
  by_cases h : o.area = area
  · rw [if_pos h, if_pos (decide_eq_true h), Option.map_some]
  · rw [if_neg h, if_neg (mt of_decide_eq_true h), lastValue?]

/-- Recording observations gives an area the value that comes last for it. -/
theorem get?_foldl_record (os : List Observation) (m : Ledger) (area : String) :
    (os.foldl record m).get? area = (lastValue? os area).or (m.get? area) := by
  induction os using List.reverseRecOn with
  | nil => rfl
  | append_singleton os o ih =>
    rw [List.foldl_append, List.foldl_cons, List.foldl_nil, record, Keyed.get?_put, ih,
      lastValue?_append_singleton]
    by_cases h : o.area = area
    · rw [if_pos h, if_pos h, Option.some_or]
    · rw [if_neg h, if_neg h]

end Ledger

/-- **Streams are taken in under their ceiling.** A table of a stream, which may be divided, is made
unless an item fails or too many come, whichever is first; so is a ledger. What is made holds the
last value of every cell, divided if there are denominators, and the last value of every area. -/
theorem streams_obey_ceiling (ceiling : ℕ) (s : Stream) :
    (∀ w : Option (Ledger × String), ObeysCeiling ceiling w
      (fun s => tabulate ceiling (dividedBy w s)) s (Crosstab.IsQuotientTable w)) ∧
    ∀ ledger : Ledger, ObeysCeiling ceiling none (collect ceiling ledger) s fun os m =>
      ∀ area, m.get? area = (Ledger.lastValue? os area).or (ledger.get? area) := by
  constructor
  · intro w
    apply (obeysCeiling_takeIn ceiling Crosstab.insert {} w s).mono
    intro os t h ht
    rw [ht]
    exact Crosstab.isQuotientTable_ofObservations h
  · intro ledger
    apply (obeysCeiling_takeIn ceiling Ledger.record ledger none s).mono
    intro os m _ hm area
    rw [hm, show quotient none = id from rfl, List.map_id]
    exact Ledger.get?_foldl_record os ledger area

end Choropleth
