import Choropleth.Proofs.Keyed
import Choropleth.Proofs.Query.Ceiling

/-!
# Tables of one category

Observations of a single category make a table of one column, which holds what a ledger of the same
observations holds: the last value of every area, areas in the order in which they first occur.

* `takeIn_ok`: a stream without errors and without a ceiling is taken in whole;
* `Crosstab.column`: the table of a ledger;
* `Crosstab.ofObservations_eq_column`: the table of observations of one category.
-/

namespace Choropleth

/-! ### Streams without errors -/

/-- Without a ceiling a stream without errors is taken in whole. -/
theorem takeIn_ok {α : Type} (add : α → Observation → α) (built : α) (os : List Observation) :
    takeIn 0 add built (os.map Except.ok) = ⟨os.foldl add built, none, os.length⟩ :=
  takeIn_complete fun h => Nat.lt_irrefl 0 h.1

/-- Without a ceiling observations make their table. -/
theorem result_tabulate_ok (os : List Observation) :
    (tabulate 0 (os.map Except.ok)).result = .ok (Crosstab.ofObservations os) := by
  rw [tabulate, takeIn_ok]
  rfl

/-! ### Ledgers of observations -/

/-- The ledger of a list of observations. -/
def Ledger.ofObservations (os : List Observation) : Ledger := os.foldl Ledger.record []

namespace Ledger

theorem nodup_ofObservations (os : List Observation) :
    ((ofObservations os).map Prod.fst).Nodup := by
  have h := Keyed.nodup_keys_foldl_put (os.map fun o => (o.area, o.value))
    (m := ([] : Ledger)) List.nodup_nil
  rwa [List.foldl_map] at h

theorem mem_areas_foldl_record (area : String) (os : List Observation) (m : Ledger) :
    area ∈ (os.foldl record m).map Prod.fst ↔
      area ∈ m.map Prod.fst ∨ ∃ o ∈ os, o.area = area := by
  induction os generalizing m with
  | nil => simp
  | cons o os ih =>
    have hrecord : area ∈ (m.record o).map Prod.fst ↔ area ∈ m.map Prod.fst ∨ o.area = area := by
      rw [record, Keyed.keys_put]
      split
      · next hmem => exact ⟨.inl, fun h => h.elim id fun h => h ▸ hmem⟩
      · rw [List.mem_append, List.mem_singleton, eq_comm (a := area)]
    rw [List.foldl_cons, ih, hrecord, List.exists_mem_cons_iff, or_assoc]

/-- The areas of a ledger are those of its observations. -/
theorem mem_areas_ofObservations {os : List Observation} {area : String} :
    area ∈ (ofObservations os).map Prod.fst ↔ ∃ o ∈ os, o.area = area := by
  simp [ofObservations, mem_areas_foldl_record]

/-- Changes the value of every area. -/
def mapValues (f : String → Float → Float) (m : Ledger) : Ledger := m.map fun p => (p.1, f p.1 p.2)

theorem mapValues_put (f : String → Float → Float) (m : Ledger) (area : String) (x : Float) :
    mapValues f (m.put area x) = (mapValues f m).put area (f area x) := by
  induction m with
  | nil => rfl
  | cons p m ih =>
    obtain ⟨a, y⟩ := p
    by_cases ha : a = area
    · simp [Keyed.put, mapValues, ha]
    · rw [Keyed.put, if_neg ha, mapValues, List.map_cons, mapValues, List.map_cons, Keyed.put,
        if_neg ha]
      exact congrArg _ ih

/-- Changing the values of the observations changes those of the ledger, the last ones included. -/
theorem ofObservations_map (f : String → Float → Float) (os : List Observation) :
    ofObservations (os.map fun o => { o with value := f o.area o.value }) =
      mapValues f (ofObservations os) := by
  have hfold (m : Ledger) : (os.map fun o => { o with value := f o.area o.value }).foldl record
      (mapValues f m) = mapValues f (os.foldl record m) := by
    induction os generalizing m with
    | nil => rfl
    | cons o os ih =>
      rw [List.map_cons, List.foldl_cons, List.foldl_cons, ← ih, record, record, mapValues_put]
  exact hfold []

end Ledger

/-! ### Columns -/

namespace Crosstab

theorem place_cons (label l : String) (r : List String) : place label (l :: r) =
    if l = label then (0, l :: r) else ((place label r).1 + 1, l :: (place label r).2) := by
  unfold place
  rw [position?]
  by_cases h : l = label
  · rw [if_pos h, if_pos h]
  · rw [if_neg h, if_neg h]
    cases position? label r <;> rfl

/-- The cells of the values of a ledger in column 0, the first of them in row `row`. -/
def columnCells (row : ℕ) : Ledger → Keyed (ℕ × ℕ) Float
  | [] => []
  | (_, x) :: m => ((row, 0), x) :: columnCells (row + 1) m

/-- The table of a ledger. Without values it has no column. -/
def column (category : String) (m : Ledger) : Crosstab where
  areas := m.map Prod.fst
  categories := if m.isEmpty then [] else [category]
  cells := columnCells 0 m

theorem place_areas (area : String) (x : Float) (m : Ledger) :
    (place area (m.map Prod.fst)).2 = (m.put area x).map Prod.fst := by
  induction m with
  | nil => rfl
  | cons p m ih =>
    obtain ⟨a, y⟩ := p
    rw [List.map_cons, place_cons, Keyed.put]
    split
    · next ha => exact congrArg (· :: _) ha
    · exact congrArg (a :: ·) ih

theorem columnCells_put (area : String) (x : Float) (row : ℕ) (m : Ledger) :
    columnCells row (m.put area x) =
      (columnCells row m).put (row + (place area (m.map Prod.fst)).1, 0) x := by
  induction m generalizing row with
  | nil => rfl
  | cons p m ih =>
    obtain ⟨a, y⟩ := p
    rw [List.map_cons, place_cons, Keyed.put]
    split
    · simp [columnCells, Keyed.put]
    · have hrow : ((row, 0) : ℕ × ℕ) ≠ (row + ((place area (m.map Prod.fst)).1 + 1), 0) := by
        simp
      rw [columnCells, columnCells, Keyed.put, if_neg hrow, ih, Nat.add_right_comm, Nat.add_assoc]

/-- One observation more is one value more. -/
theorem insert_column {category : String} {o : Observation} (h : o.category = category)
    (m : Ledger) : (column category m).insert o = column category (m.record o) := by
  have hne : (m.put o.area o.value).isEmpty = false := by
    rw [← Bool.not_eq_true, List.isEmpty_iff, ← List.length_eq_zero_iff]
    exact Keyed.length_put_ne_zero _ _ m
  have hcategory : place category (if m.isEmpty then [] else [category]) = (0, [category]) := by
    cases m <;> simp [place, position?]
  simp only [insert, column, h, hcategory, place_areas o.area o.value, Ledger.record, hne,
    columnCells_put, Nat.zero_add, Bool.false_eq_true, if_false]

/-- **Observations of one category make the table of their ledger.** -/
theorem ofObservations_eq_column {category : String} {os : List Observation}
    (h : ∀ o ∈ os, o.category = category) :
    ofObservations os = column category (Ledger.ofObservations os) := by
  have hfold (m : Ledger) :
      os.foldl insert (column category m) = column category (os.foldl Ledger.record m) := by
    induction os generalizing m with
    | nil => rfl
    | cons o os ih =>
      obtain ⟨ho, hos⟩ := List.forall_mem_cons.1 h
      rw [List.foldl_cons, insert_column ho, ih hos, List.foldl_cons]
  exact hfold []

theorem get?_columnCells (row i : ℕ) (m : Ledger) :
    (columnCells row m).get? (row + i, 0) = (m.map Prod.snd)[i]? := by
  induction m generalizing row i with
  | nil => rfl
  | cons p m ih =>
    obtain ⟨a, y⟩ := p
    cases i with
    | zero => simp [columnCells, Keyed.get?]
    | succ i =>
      have hrow : ((row, 0) : ℕ × ℕ) ≠ (row + (i + 1), 0) := by simp
      rw [columnCells, Keyed.get?, if_neg hrow, ← Nat.add_assoc, Nat.add_right_comm, ih]
      rfl

/-- The column has the values of the ledger from top to bottom. -/
theorem get?_cells_column (category : String) (m : Ledger) (row : ℕ) :
    (column category m).cells.get? (row, 0) = (m.map Prod.snd)[row]? := by
  have h := get?_columnCells 0 row m
  rwa [Nat.zero_add] at h

end Crosstab
end Choropleth
