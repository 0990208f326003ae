import Choropleth.Proofs.Clustering.Optimal

/-!
# The grid and the plain recurrence

A row of the grid could be filled from the row above it by trying every beginning of the last run.
The search looks between narrow bounds only and stops early, and yet, without rounding, every place
that is filled holds what the plain search finds.

* `costFrom?`: the cost up to a place with a given beginning of the last run;
* `IsPlainLeast`: a cost and a beginning are what the plain search finds;
* `costFrom?_eq`: costs from the row above are the candidates for the least cost;
* `grid_follows_recurrence`: every place that is filled.
-/

namespace Choropleth

open Run

/-- The cost of the values up to place `i` if the last run begins at `j`: what the row above holds
for the values before the run, and the squared deviations of the run. -/
def costFrom? (sorted : List ℚ) (above : GridRow ℚ) (j i : ℕ) : Option ℚ := do
  let before ← above.costs[j - 1]?
  let run ← run? sorted j i
  pure (before + squaredDeviations run)

/-- Of all beginnings that leave a value to each of the `c` runs before the last one, none costs
less than the one given. -/
structure IsPlainLeast (sorted : List ℚ) (above : GridRow ℚ) (c i : ℕ) (cost : ℚ) (start : ℕ) :
    Prop where
  le_start : c ≤ start
  start_le : start ≤ i
  cost_eq : costFrom? sorted above start i = some cost
  le_cost : ∀ j, c ≤ j → j ≤ i → ∃ other, costFrom? sorted above j i = some other ∧ cost ≤ other

variable {sorted : List ℚ} {above : GridRow ℚ} {c i j : ℕ}

/-- The squared deviations of a run are those of its places. -/
theorem exists_run?_spread (hj : j ≤ i) (hi : i < sorted.length) : ∃ run,
    run? sorted j i = some run ∧ squaredDeviations run = spread (valueAt sorted) j (i + 1) :=
  ⟨_, if_pos ⟨by omega, hi⟩, squaredDeviations_run hi⟩

/-- Costs from a row that holds least costs are the candidates for the row below. -/
theorem costFrom?_eq (ha : ∀ i, c ≤ i → i < sorted.length →
    above.HoldsAt (Grid.IsLeast (valueAt sorted) c i) i) (hc : c < j) (hj : j ≤ i)
    (hi : i < sorted.length) :
    costFrom? sorted above j i = some (candidate (valueAt sorted) c j (i + 1)) := by
  obtain ⟨before, -, hbefore, -, hleast, -⟩ := ha (j - 1) (by omega) (by omega)
  obtain ⟨run, hrun, hspread⟩ := exists_run?_spread hj hi
  rw [Nat.sub_add_cancel (by omega)] at hleast
  simp only [costFrom?, hbefore, hrun, hspread, hleast, candidate, Option.bind_eq_bind,
    Option.bind_some, Option.pure_def]

/-- Where the row above holds least costs, a least cost with a best beginning is what the plain
search finds. -/
theorem isPlainLeast_of_isLeast (ha : ∀ i, c ≤ i → i < sorted.length →
    above.HoldsAt (Grid.IsLeast (valueAt sorted) c i) i) (hi : i < sorted.length) {cost : ℚ}
    {start : ℕ} (h : Grid.IsLeast (valueAt sorted) (c + 1) i cost start) :
    IsPlainLeast sorted above (c + 1) i cost start := by
  obtain ⟨rfl, hbest⟩ := h
  rw [hbest.least_eq]
  obtain ⟨hcs, hsi, hle⟩ := hbest
  refine ⟨hcs, Nat.le_of_lt_succ hsi, costFrom?_eq ha hcs (Nat.le_of_lt_succ hsi) hi, ?_⟩
  exact fun j hcj hji => ⟨_, costFrom?_eq ha hcj hji hi, hle j hcj (Nat.lt_succ_of_le hji)⟩

/-- The first row of the grid is the one for single runs. -/
theorem firstRow?_of_rows? {sums : Sums ℚ} (hsums : Sums.ofSorted? sorted = some sums) {k : ℕ}
    {rows : List (GridRow ℚ)} (h : Grid.rows? sorted k = some rows) {row : GridRow ℚ}
    (hrow : rows[0]? = some row) : Grid.firstRow? sums sorted.length = some row := by
  simp only [Grid.rows?, hsums, Option.bind_eq_bind, Option.bind_some, Option.bind_eq_some_iff,
    Option.pure_def, Option.some.injEq] at h
  obtain ⟨first, hfirst, later, -, rfl⟩ := h
  rw [hfirst, ← hrow]
  rfl

/-- **Every place that is filled holds what the plain search finds.** The first row holds the
squared deviations of single runs. Each row below holds, in every column that leaves a value to each
of its runs, the least cost of all beginnings of the last run, as the row above prices the values
before it, and a beginning with this cost; so does the last row in its last column. The squared
deviations of runs are found from the sums. There need not be as many different values as rows. -/
theorem grid_follows_recurrence (hs : sorted.Pairwise (· ≤ ·)) {k : ℕ} (hk : 1 ≤ k)
    (hle : k ≤ sorted.length) :
    ∃ sums rows, Sums.ofSorted? sorted = some sums ∧ Grid.rows? sorted k = some rows ∧
      rows.length = k ∧
      (∀ j i, j ≤ i → i < sorted.length → ∃ run, run? sorted j i = some run ∧
        sums.spread? j i = some (squaredDeviations run)) ∧
      (∀ row, rows[0]? = some row → ∀ i < sorted.length, row.HoldsAt (fun cost start =>
        (run? sorted 0 i).map squaredDeviations = some cost ∧ start = 0) i) ∧
      ∀ c above row, rows[c]? = some above → rows[c + 1]? = some row →
        ∀ i, c + 1 ≤ i → i < sorted.length → c + 1 + 1 < k ∨ i = sorted.length - 1 →
          row.HoldsAt (IsPlainLeast sorted above (c + 1) i) i := by
  have hne : sorted ≠ [] := List.length_pos_iff.1 (by omega)
  obtain ⟨sums, hsums, -⟩ := Sums.exists_ofSorted? hne
  obtain ⟨shift, -, rfl⟩ := Option.map_eq_some_iff.1 hsums
  have hholds := Sums.holds_ofShifted shift hne fun i hi => valueAt_eq hi
  have hinvariant := Grid.invariant_isLeast (monotone_valueAt hs) hholds
  obtain ⟨rows, hrows, hlength, hfilled⟩ := hinvariant.exists_rows? hsums hk hle
  refine ⟨_, rows, hsums, hrows, hlength, fun j i hji hi => ?_, fun row hrow i hi => ?_,
    fun c above row habove hrow i hci hi hcase => ?_⟩
  · obtain ⟨run, hrun, hspread⟩ := exists_run?_spread hji hi
    exact ⟨run, hrun, by rw [hspread, hholds.spread?_eq hji hi]⟩
  · obtain ⟨first, hfirst, -, hall⟩ := hinvariant.exists_firstRow?
    obtain rfl : first = row :=
      Option.some.inj (hfirst.symm.trans (firstRow?_of_rows? hsums hrows hrow))
    obtain ⟨cost, start, hcost, hstart, hleast, hbest⟩ := hall i hi
    obtain ⟨run, hrun, hspread⟩ := exists_run?_spread (Nat.zero_le i) hi
    exact ⟨cost, start, hcost, hstart, by rw [hrun, Option.map_some, hspread, hleast, least],
      hbest⟩
  · have hlt := (List.getElem?_eq_some_iff.1 hrow).1
    obtain ⟨cost, start, hcost, hstart, hleast⟩ := hfilled (c + 1) row hrow i hci hi hcase
    exact ⟨cost, start, hcost, hstart, isPlainLeast_of_isLeast (fun i hci hi =>
      hfilled c above habove i hci hi (.inl (by omega))) hi hleast⟩

theorem grid_follows_recurrence_of_ties :
    ∃ rows row, Grid.rows? [1, 1, 1, 3, 5, (5 : ℚ)] 3 = some rows ∧ rows[1]? = some row ∧
      row.costs[4]? = some 2 ∧ row.starts[4]? = some 3 := by
  obtain ⟨-, rows, -, hrows, hlength, -, hfirst, hnext⟩ :=
    grid_follows_recurrence (show [1, 1, 1, 3, 5, (5 : ℚ)].Pairwise (· ≤ ·) by decide)
      (show 1 ≤ 3 by decide) (by decide)
  obtain ⟨above, row, last, rfl⟩ := List.length_eq_three.1 hlength
  obtain ⟨cost, start, hcost, hstart, hplain⟩ := hnext 0 above row rfl rfl 4 (by decide)
    (by decide) (.inl (by decide))
  have habove (i : ℕ) (hi : i < 6) : above.costs[i]? =
      (run? [1, 1, 1, 3, 5, 5] 0 i).map squaredDeviations := by
    obtain ⟨cost, -, hcost, -, hrun, -⟩ := hfirst above rfl i hi
    rw [hcost, hrun]
  have hfrom : costFrom? [1, 1, 1, 3, 5, 5] above 1 4 = some 11 ∧
      costFrom? [1, 1, 1, 3, 5, 5] above 2 4 = some 8 ∧
      costFrom? [1, 1, 1, 3, 5, 5] above 3 4 = some 2 ∧
      costFrom? [1, 1, 1, 3, 5, 5] above 4 4 = some 3 := by
    norm_num [costFrom?, habove, run?, squaredDeviations, average]
  obtain ⟨h1, h2, h3, h4⟩ := hfrom
  obtain ⟨other, hother, hle⟩ := hplain.le_cost 3 (by decide) (by decide)
  obtain rfl : 2 = other := Option.some.inj (h3.symm.trans hother)
  obtain ⟨hlow, hhigh, heq, -⟩ := hplain
  have hstart3 : start = 3 := by
    have hne {x : ℚ} (hx : some cost = some x) : ¬2 < x := not_lt.2 (Option.some.inj hx ▸ hle)
    interval_cases start
    · exact absurd (by decide) (hne (heq.symm.trans h1))
    · exact absurd (by decide) (hne (heq.symm.trans h2))
    · rfl
    · exact absurd (by decide) (hne (heq.symm.trans h4))
  subst hstart3
  exact ⟨_, row, hrows, rfl, by rw [hcost, ← heq, h3], hstart⟩

end Choropleth
