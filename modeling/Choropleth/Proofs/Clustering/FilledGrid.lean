import Choropleth.Proofs.Clustering.ExactSums
import Choropleth.Proofs.Clustering.Filling
import Choropleth.Proofs.Clustering.LeastCosts

/-!
# The filled grid

Without rounding, the grid holds the least costs of all cuts and, for each of them, a beginning of
the last run with which it is reached. The bounds between which beginnings are looked for leave out
only such as are no better than others; where bounds cross, a run of a single value is best.

* `Run.BestStart`: a beginning of the last run with which the least cost is reached;
* `Grid.exists_scan?_least`: the search finds the best beginning between two bounds;
* `Run.bestStart_of_bounds`: the best beginning between the bounds is the best of all;
* `Grid.IsLeast`, `Grid.invariant_isLeast`: a place holds the least cost and a best beginning;
* `Grid.exists_rows?_isLeast`: the grid is filled in this way.
-/

namespace Choropleth

/-! ### Best beginnings -/

namespace Run

/-- A beginning of the last of `c + 1` runs of the first `e` values with which their least cost is
reached. A single run begins with the first value. -/
def BestStart (v : ℕ → ℚ) : ℕ → ℕ → ℕ → Prop
  | 0, _, j => j = 0
  | c + 1, e, j => c < j ∧ j < e ∧ ∀ l, c < l → l < e → candidate v c j e ≤ candidate v c l e

/-- No beginning before `j` is better than `j`. -/
def IsLower (v : ℕ → ℚ) (c e j : ℕ) : Prop :=
  ∀ l, c < l → l < j → candidate v c j e ≤ candidate v c l e

variable {v : ℕ → ℚ} {c e e' j : ℕ}

theorem BestStart.least_eq (h : BestStart v (c + 1) e j) :
    least v (c + 1) e = candidate v c j e := by
  obtain ⟨hc, he, hbest⟩ := h
  obtain ⟨l, hl, hle, heq⟩ := exists_least (v := v) (show c + 1 < e by omega)
  exact le_antisymm (least_le hc he) (heq ▸ hbest l hl hle)

theorem BestStart.lt (h : BestStart v c e j) (he : 0 < e) : j < e := by
  cases c with
  | zero => exact h ▸ he
  | succ c => exact h.2.1

theorem BestStart.le (h : BestStart v c e j) : c ≤ j := by
  cases c with
  | zero => exact Nat.zero_le j
  | succ c => exact h.1

/-- The best beginning for fewer values is a bound. -/
theorem BestStart.isLower (hv : Monotone v) (h : BestStart v (c + 1) e j) (he : e ≤ e') :
    IsLower v c e' j := fun l hl hlj =>
  candidate_le_of_le hv hlj.le h.2.1 he (h.2.2 l hl (hlj.trans h.2.1))

/-- The best beginning for fewer runs is a bound. -/
theorem BestStart.isLower_above (hv : Monotone v) (h : BestStart v c e j) : IsLower v c e j := by
  cases c with
  | zero =>
    intro l _ hlj
    exact absurd hlj (h ▸ Nat.not_lt_zero l)
  | succ c =>
    exact fun l hl hlj => candidate_succ_le hv hl hlj.le (h.2.2 l (by omega) (hlj.trans h.2.1))

theorem isLower_of_le (h : j ≤ c + 1) : IsLower v c e j := fun l hl hlj => absurd hlj (by omega)

theorem IsLower.max {j' : ℕ} (h : IsLower v c e j) (h' : IsLower v c e j') :
    IsLower v c e (max j j') := by
  rcases max_choice j j' with hm | hm <;> rw [hm]
  · exact h
  · exact h'

/-- **The best beginning between the bounds is the best of all.** A bound from above is the best
beginning for more values, if there is one; the run of the last value alone is always tried. -/
theorem bestStart_of_bounds (hv : Monotone v) {i low high start : ℕ} {cost : ℚ}
    (hc : c < low) (hlow : low ≤ i) (hleft : IsLower v c (i + 1) low)
    (hright : high = i - 1 ∨ ∃ e', i + 1 < e' ∧ BestStart v (c + 1) e' high)
    (hstart : start = i ∨ low ≤ start ∧ start ≤ min (i - 1) high)
    (hcost : cost = candidate v c start (i + 1)) (hlast : cost ≤ candidate v c i (i + 1))
    (hbest : ∀ l, low ≤ l → l ≤ min (i - 1) high → cost ≤ candidate v c l (i + 1)) :
    BestStart v (c + 1) (i + 1) start := by
  have hge : ∀ l, low ≤ l → l < i + 1 → cost ≤ candidate v c l (i + 1) := by
    intro l hl hli
    rcases Nat.lt_succ_iff_lt_or_eq.1 hli with hli | rfl
    · rcases hright with rfl | ⟨e', he', hhigh⟩
      · exact hbest l hl (by omega)
      rcases Nat.lt_or_ge high l with hhl | hlh
      · have hle : candidate v c high (i + 1) ≤ candidate v c l (i + 1) :=
          candidate_le_of_ge hv hhl.le (by omega) he'.le (hhigh.2.2 l (by omega) (by omega))
        rcases Nat.lt_or_ge high low with hcross | hlh
        · exact hlast.trans ((candidate_last_le hv hhigh.1 hcross (by omega) he'
            (hleft high hhigh.1 hcross) (hhigh.2.2 low hc (by omega))).trans
              ((hleft high hhigh.1 hcross).trans hle))
        · exact (hbest high hlh (by omega)).trans hle
      · exact hbest l hl (by omega)
    · exact hlast
  refine ⟨by omega, by omega, fun l hl hli => ?_⟩
  rw [← hcost]
  rcases Nat.lt_or_ge l low with hll | hll
  · exact (hge low le_rfl (by omega)).trans (hleft l hl hll)
  · exact hge l hll hli

end Run

open Run

/-! ### The search for a beginning -/

namespace Grid

variable {v : ℕ → ℚ} {shift : ℚ} {n c : ℕ} {sums : Sums ℚ} {above : GridRow ℚ}

theorem better_fst_le (best : ℚ × ℕ) (cost : ℚ) (start : ℕ) :
    (better best cost start).1 ≤ best.1 ∧ (better best cost start).1 ≤ cost := by
  rw [better]
  split
  · next h => exact ⟨(Scalar.rat_less_iff.1 h).le, le_rfl⟩
  · next h => exact ⟨le_rfl, not_lt.1 (mt Scalar.rat_less_iff.2 h)⟩

theorem better_cases (best : ℚ × ℕ) (cost : ℚ) (start : ℕ) :
    better best cost start = best ∨ better best cost start = (cost, start) := by
  rw [better]
  split
  · exact .inr rfl
  · exact .inl rfl

/-- The search finds the best of the beginnings between two bounds, and of the one that is given. -/
theorem exists_scan?_least (hs : sums.Holds v shift n)
    (ha : ∀ i, c ≤ i → i < n → above.costs[i]? = some (least v c (i + 1))) {i low high : ℕ}
    (hi : i < n) (hlow : c < low) (hhigh : high ≤ i) (best : ℚ × ℕ) :
    ∃ found, scan? sums above i low high best = some found ∧
      (found = best ∨
        ∃ j, low ≤ j ∧ j ≤ high ∧ found = (candidate v c j (i + 1), j)) ∧
      found.1 ≤ best.1 ∧ ∀ j, low ≤ j → j ≤ high → found.1 ≤ candidate v c j (i + 1) := by
  rw [scan?]
  by_cases hlt : high < low
  · exact ⟨best, if_pos hlt, .inl rfl, le_rfl, fun j hlj hjh => absurd hlt (by omega)⟩
  have hcost (j : ℕ) (hj : c < j) (hji : j ≤ i) : above.costs[j - 1]? = some (least v c j) := by
    have h := ha (j - 1) (by omega) (by omega)
    rwa [Nat.sub_add_cancel (by omega)] at h
  simp only [if_neg hlt, hs.spread?_eq hhigh hi, hs.spread?_eq (show low ≤ i by omega) hi, minus?,
    if_pos (show 1 ≤ low by omega), hcost low hlow (by omega), hcost high (by omega) hhigh,
    if_neg (show ¬high = 0 by omega), Option.bind_eq_bind, Option.bind_some, Scalar.rat_add,
    Scalar.rat_atLeast_iff]
  split
  · -- costs and spreads only grow from here
    next hstop =>
    refine ⟨best, rfl, .inl rfl, le_rfl, fun j hlj hjh => hstop.trans ?_⟩
    rw [add_comm]
    exact add_le_add (least_mono hlow hlj) (spread_mono hjh le_rfl)
  · rw [add_comm (spread v low (i + 1)), add_comm (spread v high (i + 1))]
    obtain ⟨hb, hl⟩ := better_fst_le best (candidate v c low (i + 1)) low
    obtain ⟨hb', hh⟩ := better_fst_le (better best (candidate v c low (i + 1)) low)
      (candidate v c high (i + 1)) high
    obtain ⟨found, hscan, hfound, hle, hbest⟩ := exists_scan?_least hs ha hi
      (show c < low + 1 by omega) (show high - 1 ≤ i by omega)
      (better (better best (candidate v c low (i + 1)) low) (candidate v c high (i + 1)) high)
    refine ⟨found, hscan, ?_, hle.trans (hb'.trans hb), fun j hlj hjh => ?_⟩
    · rcases hfound with rfl | ⟨j, hlj, hjh, rfl⟩
      · rcases better_cases (better best (candidate v c low (i + 1)) low)
          (candidate v c high (i + 1)) high with h | h
        · rw [h]
          rcases better_cases best (candidate v c low (i + 1)) low with h' | h'
          · exact .inl h'
          · exact .inr ⟨low, le_rfl, by omega, h'⟩
        · exact .inr ⟨high, by omega, le_rfl, h⟩
      · exact .inr ⟨j, by omega, by omega, rfl⟩
    · rcases Nat.eq_or_lt_of_le hlj with rfl | hlj
      · exact hle.trans (hb'.trans hl)
      rcases Nat.eq_or_lt_of_le hjh with rfl | hjh
      · exact hle.trans hh
      · exact hbest j (by omega) (by omega)
termination_by high + 1 - low

/-- The search between the bounds finds the best beginning of all. -/
theorem exists_scan?_bestStart (hv : Monotone v) (hs : sums.Holds v shift n)
    (ha : ∀ i, c ≤ i → i < n → above.costs[i]? = some (least v c (i + 1))) {i low high : ℕ}
    (hi : i < n) (hc : c < low) (hlow : low ≤ i) (hleft : IsLower v c (i + 1) low)
    (hright : high = i - 1 ∨ ∃ e', i + 1 < e' ∧ BestStart v (c + 1) e' high) :
    ∃ start, scan? sums above i low (min (i - 1) high) (least v c i, i) =
      some (candidate v c start (i + 1), start) ∧ BestStart v (c + 1) (i + 1) start := by
  have hlast : candidate v c i (i + 1) = least v c i := by
    rw [candidate, spread_succ, add_zero]
  obtain ⟨found, hscan, hfound, hle, hbest⟩ := exists_scan?_least hs ha hi hc
    (show min (i - 1) high ≤ i by omega) (least v c i, i)
  have hcost : found.1 = candidate v c found.2 (i + 1) ∧
      (found.2 = i ∨ low ≤ found.2 ∧ found.2 ≤ min (i - 1) high) := by
    rcases hfound with rfl | ⟨j, hlj, hjh, rfl⟩
    · exact ⟨hlast.symm, .inl rfl⟩
    · exact ⟨rfl, .inr ⟨hlj, hjh⟩⟩
  refine ⟨found.2, by rw [hscan, ← hcost.1], ?_⟩
  exact bestStart_of_bounds hv hc hlow hleft hright hcost.2 hcost.1 (hlast ▸ hle) hbest

/-! ### The grid -/

/-- A place holds the least cost of the values up to it and a best beginning. -/
def IsLeast (v : ℕ → ℚ) (c i : ℕ) (cost : ℚ) (start : ℕ) : Prop :=
  cost = least v c (i + 1) ∧ BestStart v c (i + 1) start

/-- **Without rounding, the grid holds least costs and best beginnings.** -/
theorem invariant_isLeast (hv : Monotone v) (hs : sums.Holds v shift n) :
    Invariant sums n (IsLeast v) where
  first i hi := ⟨spread v 0 (i + 1), hs.spread?_eq (Nat.zero_le i) hi, rfl, rfl⟩
  scan {c above} ha {i fromLeft fromRight fromAbove cost} hci hi hcost habove hleft hright := by
    have hcosts : ∀ j, c ≤ j → j < n → above.costs[j]? = some (least v c (j + 1)) := by
      intro j hcj hjn
      obtain ⟨cost, -, hcost, -, rfl, -⟩ := ha j hcj hjn
      exact hcost
    obtain ⟨-, start, -, hstart, -, hbest⟩ := ha i (by omega) hi
    obtain rfl : start = fromAbove := Option.some.inj (hstart.symm.trans habove)
    obtain rfl : cost = least v c i := by
      have h := hcosts (i - 1) (by omega) (by omega)
      rw [Nat.sub_add_cancel (by omega)] at h
      exact Option.some.inj (hcost.symm.trans h)
    have hbounded : fromLeft ≤ i ∧ IsLower v c (i + 1) fromLeft := by
      rcases hleft with hle | ⟨j, hji, x, -, hbest⟩
      · exact ⟨by omega, isLower_of_le hle⟩
      · exact ⟨by have := hbest.2.1; omega, hbest.isLower hv (by omega)⟩
    have hstarti := hbest.lt (Nat.succ_pos i)
    obtain ⟨start', hscan, hbest'⟩ := exists_scan?_bestStart hv hs hcosts hi
      (show c < max (max (c + 1) fromLeft) start by omega) (by omega)
      (((isLower_of_le le_rfl).max hbounded.2).max (hbest.isLower_above hv))
      (hright.imp_right fun ⟨j, hij, _, _, hbest⟩ => ⟨j + 1, by omega, hbest⟩)
    exact ⟨_, hscan, hbest'.least_eq.symm, hbest'⟩

/-- **Without rounding, the grid is filled with least costs and best beginnings.** -/
theorem exists_rows?_isLeast (hv : Monotone v) {sorted : List ℚ}
    (h : ∀ i, (hi : i < sorted.length) → sorted[i] = v i) {k : ℕ} (hk : 0 < k)
    (hle : k ≤ sorted.length) :
    ∃ rows, rows? sorted k = some rows ∧ rows.length = k ∧
      ∀ c row, rows[c]? = some row → ∀ i, c ≤ i → i < sorted.length →
        c + 1 < k ∨ i = sorted.length - 1 → row.HoldsAt (IsLeast v c i) i := by
  have hne : sorted ≠ [] := List.length_pos_iff.1 (by omega)
  obtain ⟨sums, hsums, -⟩ := Sums.exists_ofSorted? hne
  obtain ⟨shift, -, rfl⟩ := Option.map_eq_some_iff.1 hsums
  exact (invariant_isLeast hv (Sums.holds_ofShifted shift hne h)).exists_rows? hsums hk hle

end Grid
end Choropleth
