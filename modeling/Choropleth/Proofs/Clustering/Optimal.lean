import Choropleth.Proofs.Clustering.FilledGrid
import Choropleth.Proofs.Clustering.Values

/-!
# Classes with the least spread

Without rounding, the classes of values are a best way to cut the sorted values into runs: no other
cut into as many runs has a smaller total of the squared deviations from the means of its runs.

* `totalDeviation`: the total of the squared deviations of a cut;
* `least_le_totalDeviation`: no cut costs less than the least cost;
* `exists_sortedClasses?_least`: the cut along the grid has the least cost;
* `classes_least_deviation`: the classes of values.
-/

open Finset

namespace Choropleth

open Run

/-! ### Cuts and their deviations -/

/-- The mean of values. -/
def average (xs : List ℚ) : ℚ := xs.sum / xs.length

/-- The sum of the squared deviations of values from their mean. -/
def squaredDeviations (xs : List ℚ) : ℚ := (xs.map fun x => (x - average xs) ^ 2).sum

/-- The total of the squared deviations within runs. -/
def totalDeviation (runs : List (List ℚ)) : ℚ := (runs.map squaredDeviations).sum

/-- Sorted values as a sequence that stays at its last value. -/
def valueAt (sorted : List ℚ) (i : ℕ) : ℚ := sorted.getD (min i (sorted.length - 1)) 0

variable {sorted : List ℚ}

theorem valueAt_eq {i : ℕ} (hi : i < sorted.length) : sorted[i] = valueAt sorted i := by
  rw [valueAt, Nat.min_eq_left (by omega), List.getD_eq_getElem sorted 0 hi]

theorem monotone_valueAt (h : sorted.Pairwise (· ≤ ·)) : Monotone (valueAt sorted) := by
  intro i j hij
  rcases eq_or_ne sorted [] with rfl | hne
  · exact le_rfl
  have hn : 0 < sorted.length := List.length_pos_iff.2 hne
  have hi : min i (sorted.length - 1) < sorted.length := by omega
  have hj : min j (sorted.length - 1) < sorted.length := by omega
  rw [valueAt, valueAt, List.getD_eq_getElem _ 0 hi, List.getD_eq_getElem _ 0 hj]
  exact h.rel_get_of_le (a := ⟨_, hi⟩) (b := ⟨_, hj⟩) (show min i _ ≤ min j _ by omega)

/-- The deviations of a run are those of its places. -/
theorem squaredDeviations_run {j e : ℕ} (he : e ≤ sorted.length) :
    squaredDeviations ((sorted.take e).drop j) = spread (valueAt sorted) j e := by
  have hrun : (sorted.take e).drop j = (List.range' j (e - j)).map (valueAt sorted) := by
    refine List.ext_getElem (by simp; omega) fun i hi hi' => ?_
    rw [List.getElem_drop, List.getElem_take, List.getElem_map, List.getElem_range', one_mul,
      valueAt_eq]
  have hsum (f : ℕ → ℚ) : ((List.range' j (e - j)).map f).sum = ∑ l ∈ Ico j e, f l := rfl
  rw [squaredDeviations, average, hrun, List.length_map, List.length_range', hsum, List.map_map,
    spread, deviation, mean]
  exact hsum _

/-! ### No cut costs less -/

theorem totalDeviation_concat (runs : List (List ℚ)) (run : List ℚ) :
    totalDeviation (runs ++ [run]) = totalDeviation runs + squaredDeviations run := by
  simp [totalDeviation]

/-- **No cut costs less than the least cost.** -/
theorem least_le_totalDeviation {c e : ℕ} (he : e ≤ sorted.length) {runs : List (List ℚ)}
    (h : IsCut (sorted.take e) (c + 1) runs) :
    least (valueAt sorted) c e ≤ totalDeviation runs := by
  induction c generalizing e runs with
  | zero =>
    obtain ⟨j, before, rfl, -, -, hbefore⟩ := h.exists_concat he
    obtain rfl := List.length_eq_zero_iff.1 hbefore.length
    have hwhole : (sorted.take e).drop j = (sorted.take e).drop 0 := by simpa using h.flatten
    rw [hwhole, List.nil_append, totalDeviation, List.map_singleton, List.sum_singleton,
      squaredDeviations_run he, least]
  | succ c ih =>
    obtain ⟨j, before, rfl, hcj, hje, hbefore⟩ := h.exists_concat he
    calc least (valueAt sorted) (c + 1) e
        ≤ least (valueAt sorted) c j + spread (valueAt sorted) j e := least_le hcj hje
      _ ≤ totalDeviation before + squaredDeviations ((sorted.take e).drop j) := by
        rw [squaredDeviations_run he]
        exact add_le_add_left (ih (by omega) hbefore) _
      _ = totalDeviation (before ++ [(sorted.take e).drop j]) :=
        (totalDeviation_concat _ _).symm

/-! ### The cut along the grid -/

/-- **Sorted values are cut in a best way.** -/
theorem exists_sortedClasses?_least (hs : sorted.Pairwise (· ≤ ·)) {k : ℕ} (hk : 0 < k)
    (hle : k ≤ sorted.length) : ∃ runs, sortedClasses? sorted k = some runs ∧
      totalDeviation runs = least (valueAt sorted) (k - 1) sorted.length := by
  obtain ⟨rows, hrows, hlength, hfilled⟩ := Grid.exists_rows?_isLeast (monotone_valueAt hs)
    (fun i hi => valueAt_eq hi) hk hle
  obtain ⟨runs, hruns, htotal⟩ := exists_cutRuns? (p := Grid.IsLeast (valueAt sorted))
    (Q := fun c last cut => totalDeviation cut = least (valueAt sorted) c (last + 1))
    (fun last hlast _ start hp => ⟨hp.2, by
      have hspread := squaredDeviations_run (j := 0) (e := last + 1) hlast
      rw [List.drop_zero] at hspread
      rw [totalDeviation, List.map_singleton, List.sum_singleton, hspread, least]⟩)
    (fun c last hlast _ start hp => by
      have hbest := hp.2
      have hcost := hbest.least_eq
      obtain ⟨hcs, hsl, -⟩ := hbest
      refine ⟨hcs, Nat.le_of_lt_succ hsl, fun cut hcut => ?_⟩
      rw [Nat.sub_add_cancel (by omega)] at hcut
      rw [totalDeviation_concat, squaredDeviations_run hlast, hcut, hcost, candidate])
    (show rows.length = k - 1 + 1 by omega) (show sorted.length - 1 < sorted.length by omega)
    (by omega) (fun r row hr i hri hi hcase => hfilled r row hr i hri hi (by omega)) []
  rw [Nat.sub_add_cancel (by omega)] at htotal
  refine ⟨runs, ?_, htotal⟩
  simp only [sortedClasses?, hrows, minus?, if_pos (show 1 ≤ sorted.length by omega),
    Option.bind_eq_bind, Option.bind_some, hruns, List.append_nil]

/-! ### Classes -/

theorem pairwise_sortValues_rat (values : List ℚ) : (sortValues values).Pairwise (· ≤ ·) :=
  pairwise_sortValues_of_key (fun _ _ => decide_eq_true_iff) values

theorem distinctCount_sortValues_rat (values : List ℚ) :
    distinctCount (sortValues values) = values.toFinset.card := by
  rw [distinctCount_eq_card id (fun x _ y _ => Scalar.rat_less_iff)
    (pairwise_sortValues_rat values), List.map_id]
  congr 1
  ext x
  simp [mem_sortValues]

/-- There are classes, and no other cut into as many runs has smaller deviations. -/
theorem exists_classes_least {values : List ℚ} {k : ℕ} (hne : values ≠ []) (hk : 1 ≤ k)
    (hd : k ≤ values.toFinset.card) : ∃ runs, classes? values k = some (.ok runs) ∧
      ∀ others, IsCut (sortValues values) k others →
        totalDeviation runs ≤ totalDeviation others := by
  have hdistinct := distinctCount_sortValues_rat values
  have hlength := distinctCount_le_length (sortValues values)
  obtain ⟨runs, hruns⟩ := exists_classes?_ok hne hk (fun _ _ => rfl) (hdistinct.symm ▸ hd)
  refine ⟨runs, hruns, fun others h => ?_⟩
  rcases (of_classes? hruns).2.2.2 with ⟨rfl, rfl⟩ | hcut
  · -- a single value has one class, and there is no other cut
    obtain ⟨run, rfl⟩ := List.length_eq_one_iff.1 h.length
    rw [← h.flatten, List.flatten_singleton]
  · obtain ⟨runs', hruns', htotal⟩ :=
      exists_sortedClasses?_least (pairwise_sortValues_rat values) hk (by omega)
    obtain rfl : runs' = runs := Option.some.inj (hruns'.symm.trans hcut)
    rw [← List.take_length (l := sortValues values), ← Nat.sub_add_cancel hk] at h
    exact htotal.le.trans (least_le_totalDeviation le_rfl h)

/-- **The classes of values have the least spread**: they are a cut of the sorted values, and no
other cut into as many runs has a smaller total of squared deviations. -/
theorem classes_least_deviation {values : List ℚ} {k : ℕ} (hne : values ≠ []) (hk : 1 ≤ k)
    (hd : k ≤ values.toFinset.card) :
    (sortValues values).Perm values ∧ (sortValues values).Pairwise (· ≤ ·) ∧
    ∃ runs, classes? values k = some (.ok runs) ∧ IsCut (sortValues values) k runs ∧
      ∀ others, IsCut (sortValues values) k others →
        totalDeviation runs ≤ totalDeviation others := by
  obtain ⟨runs, hruns, hbest⟩ := exists_classes_least hne hk hd
  exact ⟨List.mergeSort_perm _ _, pairwise_sortValues_rat values, runs, hruns,
    isCut_of_classes? hruns, hbest⟩

theorem classes_least_deviation_of_ties :
    ∃ runs, classes? [1, 1, 1, 3, 5, (5 : ℚ)] 3 = some (.ok runs) ∧
      totalDeviation runs ≤ totalDeviation [[1, 1], [1, 3], [5, (5 : ℚ)]] := by
  have hsorted : sortValues [1, 1, 1, 3, 5, (5 : ℚ)] = [1, 1, 1, 3, 5, 5] :=
    List.mergeSort_of_pairwise (by decide)
  obtain ⟨-, -, runs, hruns, -, hbest⟩ := classes_least_deviation
    (show [1, 1, 1, 3, 5, (5 : ℚ)] ≠ [] by decide) (show 1 ≤ 3 by decide) (by decide)
  exact ⟨runs, hruns, hbest _ ⟨by decide, by decide, by rw [hsorted]; rfl⟩⟩

end Choropleth
