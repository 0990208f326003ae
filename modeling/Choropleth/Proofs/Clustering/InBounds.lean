import Mathlib.Order.Basic
import Choropleth.Clustering.Classes

/-!
# Looking up costs and beginnings

The clustering algorithm looks up sums, costs and beginnings of runs by their places. All these
places are there, whatever comes out of the arithmetic, since no run begins behind its end.

* `Sums.Fits`, `GridRow.Fits`: sums and rows have an entry for every value;
* `GridRow.HoldsAt`, `GridRow.AgreesAt`: what is known of a place of a row, and what is left there;
* `GridRow.Fits.exists_set?`: a place of a row can be set;
* `Grid.exists_scan?`: the search for a beginning stays between its bounds.
-/

namespace Choropleth

variable {α : Type} {n : ℕ}

namespace Sums

variable [Scalar α]

/-- There is a sum and a sum of squares for each of `n` values. -/
structure Fits (n : ℕ) (s : Sums α) : Prop where
  sum : s.sum.size = n
  squares : s.squares.size = n

theorem Fits.extend {s : Sums α} (h : s.Fits n) (shift sum squares : α) (xs : List α) :
    (Sums.extend shift s sum squares xs).Fits (n + xs.length) := by
  induction xs generalizing n s sum squares with
  | nil => exact h
  | cons x xs ih =>
    rw [Sums.extend, List.length_cons, Nat.add_left_comm, Nat.add_comm]
    exact ih ⟨by simp [h.sum], by simp [h.squares]⟩ _ _

theorem exists_ofSorted? {xs : List α} (h : xs ≠ []) :
    ∃ s, ofSorted? xs = some s ∧ s.Fits xs.length := by
  obtain ⟨x, r, rfl⟩ := List.exists_cons_of_ne_nil h
  have hmid : (x :: r).length / 2 < (x :: r).length :=
    Nat.div_lt_self (Nat.succ_pos _) Nat.one_lt_two
  have hfits (shift : α) : (ofShifted shift (x :: r)).Fits (x :: r).length := by
    rw [List.length_cons, Nat.add_comm]
    exact Fits.extend (n := 1) ⟨rfl, rfl⟩ _ _ _ r
  rw [ofSorted?, List.getElem?_eq_getElem hmid]
  exact ⟨_, rfl, hfits _⟩

theorem Fits.exists_spread? {s : Sums α} (h : s.Fits n) {i j : ℕ} (hi : i < n) (hj : j ≤ i) :
    ∃ x, s.spread? j i = some x := by
  have hsum (k : ℕ) (hk : k < n) : ∃ x, s.sum[k]? = some x :=
    ⟨_, Array.getElem?_eq_getElem (h.sum ▸ hk)⟩
  have hsquares (k : ℕ) (hk : k < n) : ∃ x, s.squares[k]? = some x :=
    ⟨_, Array.getElem?_eq_getElem (h.squares ▸ hk)⟩
  obtain ⟨sumI, hsumI⟩ := hsum i hi
  obtain ⟨squaresI, hsquaresI⟩ := hsquares i hi
  obtain ⟨sumJ, hsumJ⟩ := hsum (j - 1) (by omega)
  obtain ⟨squaresJ, hsquaresJ⟩ := hsquares (j - 1) (by omega)
  rw [spread?, hsumI, hsquaresI]
  by_cases h0 : j = 0
  · exact ⟨_, if_pos h0⟩
  · rw [hsumJ, hsquaresJ, minus?, if_pos hj]
    exact ⟨_, if_neg h0⟩

end Sums

namespace GridRow

/-- There is a cost and a beginning for each of `n` places. -/
structure Fits (n : ℕ) (row : GridRow α) : Prop where
  costs : row.costs.size = n
  starts : row.starts.size = n

theorem fits_blank [Scalar α] : (blank n : GridRow α).Fits n where
  costs := by simp [blank]
  starts := by simp [blank]

variable {row row' : GridRow α} {i j : ℕ}

/-- What is known of the cost and the beginning at a place of a row. -/
def HoldsAt (p : α → ℕ → Prop) (i : ℕ) (row : GridRow α) : Prop :=
  ∃ cost start, row.costs[i]? = some cost ∧ row.starts[i]? = some start ∧ p cost start

/-- Two rows hold the same at a place. -/
def AgreesAt (i : ℕ) (row row' : GridRow α) : Prop :=
  row'.costs[i]? = row.costs[i]? ∧ row'.starts[i]? = row.starts[i]?

theorem AgreesAt.refl (i : ℕ) (row : GridRow α) : AgreesAt i row row := ⟨rfl, rfl⟩

theorem AgreesAt.trans {row'' : GridRow α} (h : AgreesAt i row row')
    (h' : AgreesAt i row' row'') : AgreesAt i row row'' :=
  ⟨h'.1.trans h.1, h'.2.trans h.2⟩

theorem HoldsAt.of_agreesAt {p : α → ℕ → Prop} (h : row.HoldsAt p i) (ha : AgreesAt i row row') :
    row'.HoldsAt p i := by
  obtain ⟨cost, start, hcost, hstart, hp⟩ := h
  exact ⟨cost, start, ha.1.trans hcost, ha.2.trans hstart, hp⟩

/-- A place of a row can be set, and the others are left as they are. -/
theorem Fits.exists_set? (h : row.Fits n) (hi : i < n) {p : α → ℕ → Prop} {cost : α} {start : ℕ}
    (hp : p cost start) : ∃ row', row.set? i cost start = some row' ∧ row'.Fits n ∧
      row'.HoldsAt p i ∧ ∀ j ≠ i, AgreesAt j row row' := by
  have hcosts : i < row.costs.size := h.costs ▸ hi
  have hstarts : i < row.starts.size := h.starts ▸ hi
  refine ⟨_, if_pos ⟨hcosts, hstarts⟩, ⟨by simp [h.costs], by simp [h.starts]⟩,
    ⟨cost, start, ?_, ?_, hp⟩, fun j hj => ⟨?_, ?_⟩⟩
  · rw [Array.getElem?_setIfInBounds_self, if_pos hcosts]
  · rw [Array.getElem?_setIfInBounds_self, if_pos hstarts]
  · exact Array.getElem?_setIfInBounds_ne (Ne.symm hj)
  · exact Array.getElem?_setIfInBounds_ne (Ne.symm hj)

end GridRow

namespace Grid

variable [Scalar α] {sums : Sums α} {above : GridRow α}

theorem better_start (best : α × ℕ) (cost : α) (start : ℕ) :
    (better best cost start).2 = best.2 ∨ (better best cost start).2 = start := by
  rw [better]
  split
  · exact .inr rfl
  · exact .inl rfl

/-- The search stays between its bounds. -/
theorem exists_scan? (hs : sums.Fits n) {c : ℕ}
    (ha : ∀ i, c ≤ i → i < n → ∃ cost, above.costs[i]? = some cost) {i low high : ℕ} (hi : i < n)
    (hlow : c < low) (hhigh : high ≤ i) (best : α × ℕ) :
    ∃ found, scan? sums above i low high best = some found ∧
      (found.2 = best.2 ∨ low ≤ found.2 ∧ found.2 ≤ high) := by
  rw [scan?]
  by_cases hlt : high < low
  · exact ⟨best, if_pos hlt, .inl rfl⟩
  obtain ⟨spreadHigh, hsh⟩ := hs.exists_spread? hi hhigh
  obtain ⟨spreadLow, hsl⟩ := hs.exists_spread? hi (show low ≤ i by omega)
  obtain ⟨costLow, hcl⟩ := ha (low - 1) (by omega) (by omega)
  obtain ⟨costHigh, hch⟩ := ha (high - 1) (by omega) (by omega)
  simp only [if_neg hlt, hsh, minus?, if_pos (show 1 ≤ low by omega), hcl, hsl, hch,
    Option.bind_eq_bind, Option.bind_some]
  split
  · exact ⟨best, rfl, .inl rfl⟩
  · rw [if_neg (show ¬high = 0 by omega)]
    obtain ⟨found, hscan, hfound⟩ := exists_scan? hs ha hi (show c < low + 1 by omega)
      (show high - 1 ≤ i by omega)
      (better (better best (Scalar.add spreadLow costLow) low) (Scalar.add spreadHigh costHigh)
        high)
    refine ⟨found, hscan, ?_⟩
    rcases hfound with hfound | hfound
    · rw [hfound]
      rcases better_start (better best (Scalar.add spreadLow costLow) low)
        (Scalar.add spreadHigh costHigh) high with h | h
      · rw [h]
        rcases better_start best (Scalar.add spreadLow costLow) low with h' | h' <;> omega
      · omega
    · omega
termination_by high + 1 - low

end Grid
end Choropleth
