import Mathlib.Data.List.Induction
import Mathlib.Data.List.Nodup
import Choropleth.Crosstab

/-!
# Cells of tables

The cells of a table are kept by position, and labels keep their positions once they have one. The
cell of an area and a category therefore holds the value that came last for the two.

* `Crosstab.position?_place`: positions after one more label;
* `Crosstab.IsIndexed`: labels are different, and cells lie within the rows and columns;
* `Crosstab.isIndexed_ofObservations`: a table of observations is such;
* `Crosstab.lastValue?`: the value that comes last for an area and a category;
* `Crosstab.cell?_ofObservations`: the cell of an area and a category holds it;
* `Crosstab.get?_cells_eq`: cells by the positions of their row and column.
-/

namespace Choropleth
namespace Crosstab

/-! ### Positions -/

theorem position?_eq_none_iff {label : String} {labels : List String} :
    position? label labels = none ↔ label ∉ labels := by
  induction labels with
  | nil => simp [position?]
  | cons l labels ih =>
    rw [position?]
    by_cases h : l = label
    · simp [h]
    · simp [h, ih, Ne.symm h]

theorem getElem?_of_position? {label : String} {labels : List String} {i : ℕ}
    (h : position? label labels = some i) : labels[i]? = some label := by
  induction labels generalizing i with
  | nil => cases h
  | cons l labels ih =>
    rw [position?] at h
    split at h
    · next hl =>
      obtain rfl := Option.some.inj h
      exact congrArg some hl
    · obtain ⟨j, hj, rfl⟩ := Option.map_eq_some_iff.1 h
      exact ih hj

theorem position?_lt {label : String} {labels : List String} {i : ℕ}
    (h : position? label labels = some i) : i < labels.length :=
  (List.getElem?_eq_some_iff.1 (getElem?_of_position? h)).1

/-- Two labels do not share a position. -/
theorem label_eq_of_position? {label other : String} {labels : List String} {i : ℕ}
    (h : position? label labels = some i) (h' : position? other labels = some i) :
    label = other := by
  have hl := getElem?_of_position? h
  rw [getElem?_of_position? h'] at hl
  exact (Option.some.inj hl).symm

/-- Where labels are different, a label has the position at which it stands. -/
theorem position?_of_getElem? {label : String} {labels : List String} (hnodup : labels.Nodup)
    {i : ℕ} (h : labels[i]? = some label) : position? label labels = some i := by
  cases hp : position? label labels with
  | none => exact absurd (List.mem_of_getElem? h) (position?_eq_none_iff.1 hp)
  | some j =>
    have hj := getElem?_of_position? hp
    have hlt := position?_lt hp
    rw [(List.getElem?_inj hlt hnodup).1 (hj.trans h.symm)]

theorem position?_append_singleton (label other : String) (labels : List String) :
    position? other (labels ++ [label]) =
      (position? other labels).or (if label = other then some labels.length else none) := by
  induction labels with
  | nil => simp [position?]
  | cons l labels ih =>
    rw [List.cons_append, position?, position?, ih]
    by_cases h : l = other
    · simp [h]
    · by_cases h' : label = other <;> cases position? other labels <;> simp [h, h']

/-! ### Placing a label -/

theorem place_of_position? {label : String} {labels : List String} {i : ℕ}
    (h : position? label labels = some i) : place label labels = (i, labels) := by
  rw [place, h]

theorem place_of_not_mem {label : String} {labels : List String} (h : label ∉ labels) :
    place label labels = (labels.length, labels ++ [label]) := by
  rw [place, position?_eq_none_iff.2 h]

/-- Placing a label gives it its position and leaves those of the others. -/
theorem position?_place (label other : String) (labels : List String) :
    position? other (place label labels).2 =
      if label = other then some (place label labels).1 else position? other labels := by
  cases h : position? label labels with
  | some i =>
    rw [place_of_position? h]
    by_cases ho : label = other
    · rw [if_pos ho, ← ho, h]
    · rw [if_neg ho]
  | none =>
    have hmem := position?_eq_none_iff.1 h
    rw [place_of_not_mem hmem, position?_append_singleton]
    by_cases ho : label = other
    · rw [if_pos ho, if_pos ho, ← ho, h]
      rfl
    · rw [if_neg ho, if_neg ho, Option.or_none]

theorem nodup_place {labels : List String} (h : labels.Nodup) (label : String) :
    (place label labels).2.Nodup := by
  by_cases hmem : label ∈ labels
  · obtain ⟨i, hi⟩ := Option.ne_none_iff_exists'.1 (mt position?_eq_none_iff.1 (not_not.2 hmem))
    rwa [place_of_position? hi]
  · rw [place_of_not_mem hmem]
    exact List.Nodup.append h (List.nodup_singleton label) (by simpa using hmem)

theorem length_le_length_place (label : String) (labels : List String) :
    labels.length ≤ (place label labels).2.length := by
  rw [place]
  split
  · exact Nat.le_refl _
  · simp

/-- The position of a placed label is one of the labels, or the next one. -/
theorem place_fst_lt (label : String) (labels : List String) :
    (place label labels).1 < (place label labels).2.length :=
  position?_lt ((position?_place label label labels).trans (if_pos rfl))

/-! ### Tables of observations -/

/-- The labels of the rows are different, and so are those of the columns, and every cell lies in a
row and in a column. -/
structure IsIndexed (t : Crosstab) : Prop where
  areas : t.areas.Nodup
  categories : t.categories.Nodup
  bounded : ∀ {row column : ℕ}, (t.cells.get? (row, column)).isSome = true →
    row < t.areas.length ∧ column < t.categories.length

theorem areas_insert (t : Crosstab) (o : Observation) :
    (t.insert o).areas = (place o.area t.areas).2 := rfl

theorem categories_insert (t : Crosstab) (o : Observation) :
    (t.insert o).categories = (place o.category t.categories).2 := rfl

theorem cells_insert (t : Crosstab) (o : Observation) : (t.insert o).cells =
    t.cells.put ((place o.area t.areas).1, (place o.category t.categories).1) o.value := rfl

theorem isIndexed_empty : IsIndexed {} := ⟨List.nodup_nil, List.nodup_nil, nofun⟩

/-- One more observation keeps a table indexed: rows and columns are only added. -/
theorem IsIndexed.insert {t : Crosstab} (h : t.IsIndexed) (o : Observation) :
    (t.insert o).IsIndexed where
  areas := nodup_place h.areas o.area
  categories := nodup_place h.categories o.category
  bounded {row column} hcell := by
    rw [areas_insert, categories_insert]
    rw [cells_insert, Keyed.get?_put] at hcell
    split at hcell
    · next heq =>
      obtain ⟨rfl, rfl⟩ := Prod.mk.inj heq
      exact ⟨place_fst_lt _ _, place_fst_lt _ _⟩
    · obtain ⟨hrow, hcolumn⟩ := h.bounded hcell
      exact ⟨Nat.lt_of_lt_of_le hrow (length_le_length_place _ _),
        Nat.lt_of_lt_of_le hcolumn (length_le_length_place _ _)⟩

theorem ofObservations_append_singleton (os : List Observation) (o : Observation) :
    ofObservations (os ++ [o]) = (ofObservations os).insert o := List.foldl_append

/-- A table of observations is indexed. -/
theorem isIndexed_ofObservations (os : List Observation) : (ofObservations os).IsIndexed :=
  List.foldlRecOn os insert isIndexed_empty fun _ ht o _ => ht.insert o

/-! ### Values of cells -/

/-- A row that is only being added has no cells yet. -/
theorem IsIndexed.get?_place_row {t : Crosstab} (h : t.IsIndexed) (area : String) (column : ℕ) :
    t.cells.get? ((place area t.areas).1, column) =
      (position? area t.areas).bind fun row => t.cells.get? (row, column) := by
  cases hp : position? area t.areas with
  | some row =>
    rw [place_of_position? hp]
    rfl
  | none =>
    rw [place_of_not_mem (position?_eq_none_iff.1 hp), Option.bind_none,
      ← Option.not_isSome_iff_eq_none]
    exact fun hcell => Nat.lt_irrefl _ (h.bounded hcell).1

/-- A column that is only being added has no cells yet. -/
theorem IsIndexed.get?_place_column {t : Crosstab} (h : t.IsIndexed) (category : String)
    (row : ℕ) : t.cells.get? (row, (place category t.categories).1) =
      (position? category t.categories).bind fun column => t.cells.get? (row, column) := by
  cases hp : position? category t.categories with
  | some column =>
    rw [place_of_position? hp]
    rfl
  | none =>
    rw [place_of_not_mem (position?_eq_none_iff.1 hp), Option.bind_none,
      ← Option.not_isSome_iff_eq_none]
    exact fun hcell => Nat.lt_irrefl _ (h.bounded hcell).2

theorem position?_ne_place_fst {label other : String} {labels : List String} (hne : label ≠ other)
    {i : ℕ} (h : position? other labels = some i) : (place label labels).1 ≠ i := by
  rintro rfl
  have hlabel : position? label (place label labels).2 = some (place label labels).1 :=
    (position?_place label label labels).trans (if_pos rfl)
  refine hne (label_eq_of_position? hlabel ?_)
  rw [position?_place, if_neg hne, h]

/-- An observation sets the cell of its area and category and no other. -/
theorem IsIndexed.cell?_insert {t : Crosstab} (h : t.IsIndexed) (o : Observation)
    (area category : String) : (t.insert o).cell? area category =
      if o.area = area ∧ o.category = category then some o.value else t.cell? area category := by
  simp only [cell?, areas_insert, categories_insert, cells_insert, position?_place,
    Keyed.get?_put, Option.bind_eq_bind]
  by_cases ha : o.area = area <;> by_cases hc : o.category = category
  · simp [ha, hc]
  · -- another column of the row, which may be new
    have hrow := h.get?_place_row area
    cases hp : position? category t.categories with
    | none => simp [ha, hc]
    | some column =>
      have hcolumn := position?_ne_place_fst hc hp
      simp [ha, hc, hcolumn, hrow]
  · have hcolumn := h.get?_place_column category
    cases hp : position? area t.areas with
    | none => simp [ha, hc]
    | some row =>
      have hrow := position?_ne_place_fst ha hp
      simp [ha, hc, hrow, hcolumn]
  · cases hp : position? area t.areas with
    | none => simp [ha, hc]
    | some row =>
      have hrow := position?_ne_place_fst ha hp
      simp [ha, hc, hrow]

/-- What comes last among observations and one more. -/
theorem find?_reverse_append_singleton (p : Observation → Bool) (os : List Observation)
    (o : Observation) :
    (os ++ [o]).reverse.find? p = if p o then some o else os.reverse.find? p := by
  rw [List.reverse_append, List.reverse_singleton, List.singleton_append, List.find?_cons]
  cases p o <;> rfl

/-- The value that comes last for an area and a category. -/
def lastValue? (os : List Observation) (area category : String) : Option Float :=
  (os.reverse.find? fun o => o.area = area ∧ o.category = category).map (·.value)

theorem lastValue?_append_singleton (os : List Observation) (o : Observation)
    (area category : String) : lastValue? (os ++ [o]) area category =
      if o.area = area ∧ o.category = category then some o.value
      else lastValue? os area category := by
  rw [lastValue?, find?_reverse_append_singleton]
  by_cases h : o.area = area ∧ o.category = category
  · rw [if_pos h, if_pos (decide_eq_true h), Option.map_some]
  · rw [if_neg h, if_neg (mt of_decide_eq_true h), lastValue?]

/-- **The cell of an area and a category holds the value that comes last for them.** -/
theorem cell?_ofObservations (os : List Observation) (area category : String) :
    (ofObservations os).cell? area category = lastValue? os area category := by
  induction os using List.reverseRecOn with
  | nil => rfl
  | append_singleton os o ih =>
    rw [lastValue?_append_singleton, ← ih, ← (isIndexed_ofObservations os).cell?_insert,
      ofObservations_append_singleton]

/-- The last value is that of an observation behind which no other is of the same area and
category. -/
theorem lastValue?_eq_some_iff {os : List Observation} {area category : String} {x : Float} :
    lastValue? os area category = some x ↔ ∃ before after : List Observation,
      os = before ++ ⟨area, category, x⟩ :: after ∧
        ∀ o ∈ after, ¬(o.area = area ∧ o.category = category) := by
  rw [lastValue?, Option.map_eq_some_iff]
  constructor
  · rintro ⟨o, ho, rfl⟩
    obtain ⟨hp, after, before, hos, hafter⟩ := List.find?_eq_some_iff_append.1 ho
    obtain ⟨rfl, rfl⟩ := of_decide_eq_true hp
    refine ⟨before.reverse, after.reverse, ?_, fun p hp => ?_⟩
    · rw [← List.reverse_reverse os, hos]
      simp
    · have hne := hafter p (List.mem_reverse.1 hp)
      rwa [Bool.not_eq_true', decide_eq_false_iff_not] at hne
  · rintro ⟨before, after, rfl, hafter⟩
    refine ⟨⟨area, category, x⟩, List.find?_eq_some_iff_append.2 ⟨by simp, ?_⟩, rfl⟩
    refine ⟨after.reverse, before.reverse, by simp, fun p hp => ?_⟩
    rw [Bool.not_eq_true', decide_eq_false_iff_not]
    exact hafter p (List.mem_reverse.1 hp)

theorem IsIndexed.get?_cells_eq {t : Crosstab} (h : t.IsIndexed) {area category : String}
    {row column : ℕ} (hrow : t.areas[row]? = some area)
    (hcolumn : t.categories[column]? = some category) :
    t.cells.get? (row, column) = t.cell? area category := by
  simp only [cell?, position?_of_getElem? h.areas hrow,
    position?_of_getElem? h.categories hcolumn, Option.bind_eq_bind, Option.bind_some]

end Crosstab
end Choropleth
