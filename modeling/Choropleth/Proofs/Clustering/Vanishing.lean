import Choropleth.Proofs.Clustering.Cuts

/-!
# Vanishing deviations

Squares of small numbers are rounded to zero. If the deviations of all runs vanish, no beginning is
better than another one, and the search keeps the one that it starts from: every class but the first
is a single value, whether or not it is equal to the value before it.

* `Grid.invariant_startsLast`: every run but the first begins with its last value;
* `singledOut`: the last of some values by themselves;
* `classes?_of_vanish`: the classes of values whose deviations vanish.
-/

namespace Choropleth

variable {α : Type} [Scalar α]

namespace Grid

/-- The cost has vanished, and every run but the first begins where it ends. -/
def StartsLast (zero : α) (c i : ℕ) (cost : α) (start : ℕ) : Prop :=
  cost = zero ∧ c ≤ i ∧ start = if c = 0 then 0 else i

theorem invariant_startsLast {sums : Sums α} {n : ℕ} {zero : α}
    (hzero : Scalar.atLeast (Scalar.add zero zero) zero = true)
    (hs : ∀ i < n, ∀ j ≤ i, sums.spread? j i = some zero) :
    Invariant sums n (StartsLast zero) where
  first i hi := ⟨zero, hs i hi 0 (Nat.zero_le i), rfl, Nat.zero_le i, rfl⟩
  scan {c above} ha {i fromLeft fromRight fromAbove cost} hci hi hcost _ _ _ := by
    have habove {j : ℕ} (hcj : c ≤ j) (hj : j < n) : above.costs[j]? = some zero := by
      obtain ⟨x, -, hx, -, rfl, -⟩ := ha j hcj hj
      exact hx
    obtain rfl : zero = cost :=
      Option.some.inj ((habove (show c ≤ i - 1 by omega) (by omega)).symm.trans hcost)
    refine ⟨(zero, i), ?_, rfl, hci, rfl⟩
    rw [scan?]
    have hlow : c + 1 ≤ max (max (c + 1) fromLeft) fromAbove := by omega
    have hhigh : min (i - 1) fromRight ≤ i - 1 := Nat.min_le_left _ _
    generalize max (max (c + 1) fromLeft) fromAbove = low at hlow ⊢
    generalize min (i - 1) fromRight = high at hhigh ⊢
    by_cases hlt : high < low
    · exact if_pos hlt
    -- the first run that is looked at is no better, and the search ends
    · simp only [if_neg hlt, hs i hi high (by omega), minus?, if_pos (show 1 ≤ low by omega),
        habove (show c ≤ low - 1 by omega) (show low - 1 < n by omega), hzero,
        Option.bind_eq_bind, Option.bind_some, if_true]
      rfl

end Grid

section

variable {α : Type}

/-- The last `c` of some values by themselves, after the run of those before them. -/
def singledOut (xs : List α) (c : ℕ) : List (List α) :=
  xs.take (xs.length - c) :: (xs.drop (xs.length - c)).map ([·])

theorem singledOut_zero (xs : List α) : singledOut xs 0 = [xs] := by
  rw [singledOut, Nat.sub_zero, List.take_length, List.drop_length, List.map_nil]

theorem singledOut_concat {xs : List α} {c : ℕ} (h : c ≤ xs.length) (x : α) :
    singledOut (xs ++ [x]) (c + 1) = singledOut xs c ++ [[x]] := by
  have hlength : (xs ++ [x]).length - (c + 1) = xs.length - c := by
    rw [List.length_append, List.length_singleton]
    omega
  rw [singledOut, hlength, List.take_append_of_le_length (Nat.sub_le _ _),
    List.drop_append_of_le_length (Nat.sub_le _ _), List.map_append]
  rfl

end

variable {sorted : List α} {sums : Sums α} {zero : α}

/-- The last values are cut off one by one if the deviations vanish. -/
theorem sortedClasses?_of_vanish (hsums : Sums.ofSorted? sorted = some sums)
    (hzero : Scalar.atLeast (Scalar.add zero zero) zero = true)
    (hs : ∀ i < sorted.length, ∀ j ≤ i, sums.spread? j i = some zero) {k : ℕ} (hk : 0 < k)
    (hle : k ≤ sorted.length) : sortedClasses? sorted k = some (singledOut sorted (k - 1)) := by
  obtain ⟨rows, hrows, hlength, hfilled⟩ :=
    (Grid.invariant_startsLast hzero hs).exists_rows? hsums hk hle
  obtain ⟨runs, hruns, rfl⟩ := exists_cutRuns? (p := Grid.StartsLast zero)
    (Q := fun c last cut => cut = singledOut (sorted.take (last + 1)) c)
    (fun last _ _ start ⟨_, _, hstart⟩ => ⟨hstart, (singledOut_zero _).symm⟩)
    (fun c last hlast _ start ⟨_, hc, hstart⟩ => by
      obtain rfl : start = last := hstart
      refine ⟨hc, Nat.le_refl _, fun cut hcut => ?_⟩
      rw [Nat.sub_add_cancel (by omega)] at hcut
      have hdrop : (sorted.take start ++ [sorted[start]]).drop start = [sorted[start]] := by
        rw [List.drop_append_of_le_length (by simp; omega), List.drop_take, Nat.sub_self]
        rfl
      rw [hcut, List.take_succ_eq_append_getElem hlast, hdrop,
        singledOut_concat (by rw [List.length_take]; omega)])
    (show rows.length = k - 1 + 1 by omega) (show sorted.length - 1 < sorted.length by omega)
    (by omega) (fun r row hr i hri hi hcase => hfilled r row hr i hri hi (by omega)) []
  rw [Nat.sub_add_cancel (by omega), List.take_length] at hruns
  simp only [sortedClasses?, hrows, minus?, if_pos (show 1 ≤ sorted.length by omega),
    Option.bind_eq_bind, Option.bind_some, hruns, List.append_nil]

/-- **If the deviations vanish, every class but the first is a single value.** -/
theorem classes?_of_vanish {values : List α} {k : ℕ} {runs : List (List α)}
    (h : classes? values k = some (.ok runs))
    (hsums : Sums.ofSorted? (sortValues values) = some sums)
    (hzero : Scalar.atLeast (Scalar.add zero zero) zero = true)
    (hs : ∀ i < (sortValues values).length, ∀ j ≤ i, sums.spread? j i = some zero) :
    runs = singledOut (sortValues values) (k - 1) := by
  have hcut := isCut_of_classes? h
  have hle := length_le_length_flatten hcut.nonempty
  rw [hcut.length, hcut.flatten] at hle
  obtain ⟨hk, -, -, ⟨rfl, rfl⟩ | hruns⟩ := of_classes? h
  · exact (singledOut_zero _).symm
  · rw [sortedClasses?_of_vanish hsums hzero hs hk hle, Option.some.injEq] at hruns
    exact hruns.symm

end Choropleth
