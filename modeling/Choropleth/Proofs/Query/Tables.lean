import Choropleth.Proofs.Keyed
import Choropleth.Proofs.Query.Cells

/-!
# Tables stand for their observations

What can be read from a table depends on the list of its observations only: the rows and columns are
the areas and categories in the order in which they first occur, and a cell holds the value that
comes last. Inserting an observation is the same as putting it behind the list.

* `Crosstab.place_eraseDups`: labels in the order in which they first occur, with one more;
* `Crosstab.Represents`: a table stands for a list of observations;
* `Crosstab.Represents.insert`, `Crosstab.represents_ofObservations`: one observation more, and all
  of them;
* `Crosstab.lastValue?_perm`: values that do not depend on the order of the observations;
* `tables_represent_observations`: tables stand for their observations.
-/

namespace Choropleth
namespace Crosstab

/-! ### Labels in the order in which they first occur -/

/-- Placing a label behind others is the same as putting it behind all that have been placed. -/
theorem place_eraseDups (label : String) (labels : List String) :
    (place label labels.eraseDups).2 = (labels ++ [label]).eraseDups := by
  rw [List.eraseDups_append, List.removeAll]
  by_cases h : label ∈ labels
  · obtain ⟨i, hi⟩ := Option.ne_none_iff_exists'.1
      (mt position?_eq_none_iff.1 (not_not.2 (List.mem_eraseDups.2 h)))
    rw [place_of_position? hi]
    simp [h]
  · rw [place_of_not_mem (mt List.mem_eraseDups.1 h)]
    simp [h, List.eraseDups_cons]

/-! ### Tables and lists of observations -/

/-- The table stands for the observations: its rows are their areas and its columns their
categories, each in the order of first appearance, and a cell holds the value that comes last. -/
structure Represents (t : Crosstab) (os : List Observation) : Prop where
  areas_eq : t.areas = (os.map Observation.area).eraseDups
  categories_eq : t.categories = (os.map Observation.category).eraseDups
  cell_eq : ∀ area category, t.cell? area category = lastValue? os area category
  isEmpty_iff : t.isEmpty = true ↔ os = []
  /-- Every cell lies in a row and in a column, and no two rows or columns have one label. -/
  indexed : t.IsIndexed

theorem represents_empty : Represents {} [] where
  areas_eq := rfl
  categories_eq := rfl
  cell_eq _ _ := rfl
  isEmpty_iff := iff_of_true rfl rfl
  indexed := isIndexed_empty

/-- **Inserting an observation puts it behind those that the table stands for.** -/
theorem Represents.insert {t : Crosstab} {os : List Observation} (h : t.Represents os)
    (o : Observation) : (t.insert o).Represents (os ++ [o]) where
  areas_eq := by
    rw [areas_insert, h.areas_eq, place_eraseDups, List.map_append]
    rfl
  categories_eq := by
    rw [categories_insert, h.categories_eq, place_eraseDups, List.map_append]
    rfl
  cell_eq area category := by
    rw [h.indexed.cell?_insert, lastValue?_append_singleton, h.cell_eq]
  isEmpty_iff := by
    have hcells : (t.insert o).cells ≠ [] := by
      rw [cells_insert, ← List.length_pos_iff]
      exact Nat.pos_of_ne_zero (Keyed.length_put_ne_zero _ _ _)
    refine iff_of_false ?_ (List.append_ne_nil_of_right_ne_nil os (List.cons_ne_nil o []))
    rwa [isEmpty, List.isEmpty_iff]
  indexed := h.indexed.insert o

/-- A table of observations stands for them. -/
theorem represents_ofObservations (os : List Observation) :
    (ofObservations os).Represents os := by
  induction os using List.reverseRecOn with
  | nil => exact represents_empty
  | append_singleton os o ih =>
    rw [ofObservations_append_singleton]
    exact ih.insert o

/-! ### Other orders -/

/-- If no area has two values in one category, all of them are last. -/
theorem lastValue?_eq_some_iff_mem {os : List Observation}
    (h : (os.map fun o => (o.area, o.category)).Nodup) {area category : String} {x : Float} :
    lastValue? os area category = some x ↔ ⟨area, category, x⟩ ∈ os := by
  rw [lastValue?_eq_some_iff]
  constructor
  · rintro ⟨before, after, rfl, -⟩
    simp
  · intro hmem
    obtain ⟨before, after, rfl⟩ := List.append_of_mem hmem
    refine ⟨before, after, rfl, fun o ho hsame => ?_⟩
    rw [List.map_append, List.map_cons, List.nodup_append, List.nodup_cons] at h
    exact h.2.1.1 (List.mem_map.2 ⟨o, ho, Prod.ext hsame.1 hsame.2⟩)

/-- If no area has two values in one category, the order of the observations does not matter. -/
theorem lastValue?_perm {os ps : List Observation} (hperm : os.Perm ps)
    (h : (os.map fun o => (o.area, o.category)).Nodup) (area category : String) :
    lastValue? os area category = lastValue? ps area category := by
  have hps : (ps.map fun o => (o.area, o.category)).Nodup := (hperm.map _).nodup_iff.1 h
  refine Option.ext fun x => ?_
  rw [lastValue?_eq_some_iff_mem h, lastValue?_eq_some_iff_mem hps, hperm.mem_iff]

theorem Represents.mem_areas {t : Crosstab} {os : List Observation} (h : t.Represents os)
    {area : String} : area ∈ t.areas ↔ ∃ o ∈ os, o.area = area := by
  rw [h.areas_eq, List.mem_eraseDups, List.mem_map]

theorem Represents.mem_categories {t : Crosstab} {os : List Observation} (h : t.Represents os)
    {category : String} : category ∈ t.categories ↔ ∃ o ∈ os, o.category = category := by
  rw [h.categories_eq, List.mem_eraseDups, List.mem_map]

end Crosstab

/-- **Tables stand for their observations**: rows and columns in the order of first appearance, in
every cell the value that comes last, and no cell outside of them. If no area has two values in one
category, the order of the observations decides about that of the rows and columns only. -/
theorem tables_represent_observations (os : List Observation) :
    (Crosstab.ofObservations os).Represents os ∧
    ∀ ps : List Observation, os.Perm ps → (os.map fun o => (o.area, o.category)).Nodup →
      let t := Crosstab.ofObservations os
      let u := Crosstab.ofObservations ps
      (∀ area, area ∈ t.areas ↔ area ∈ u.areas) ∧
      (∀ category, category ∈ t.categories ↔ category ∈ u.categories) ∧
      ∀ area category, t.cell? area category = u.cell? area category := by
  have hos := Crosstab.represents_ofObservations os
  refine ⟨hos, ?_⟩
  intro ps hperm h t u
  have hps : u.Represents ps := Crosstab.represents_ofObservations ps
  refine ⟨?_, ?_, ?_⟩
  · intro area
    rw [hos.mem_areas, hps.mem_areas]
    simp only [hperm.mem_iff]
  · intro category
    rw [hos.mem_categories, hps.mem_categories]
    simp only [hperm.mem_iff]
  · intro area category
    rw [hos.cell_eq, hps.cell_eq, Crosstab.lastValue?_perm hperm h]

/-- Three observations, of two areas in two categories, in two orders. -/
theorem tables_represent_observations_in_turn :
    let os : List Observation := [⟨"B", "Z", 1⟩, ⟨"A", "Y", 2⟩, ⟨"B", "Y", 3⟩]
    let ps : List Observation := [⟨"A", "Y", 2⟩, ⟨"B", "Y", 3⟩, ⟨"B", "Z", 1⟩]
    os.Perm ps ∧ (os.map fun o => (o.area, o.category)).Nodup ∧
      (Crosstab.ofObservations os).areas = ["B", "A"] ∧
      (Crosstab.ofObservations ps).areas = ["A", "B"] ∧
      (Crosstab.ofObservations os).cell? "B" "Z" = (Crosstab.ofObservations ps).cell? "B" "Z" := by
  intro os ps
  have hperm : os.Perm ps := by decide +kernel
  have hnodup : (os.map fun o => (o.area, o.category)).Nodup := by decide
  obtain ⟨-, hother⟩ := tables_represent_observations os
  exact ⟨hperm, hnodup, by decide, by decide, (hother ps hperm hnodup).2.2 "B" "Z"⟩

end Choropleth
