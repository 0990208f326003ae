import Choropleth.Clustering.Spread
import Choropleth.Proofs.Clustering.Deviations

/-!
# Spreads from sums

Without rounding, the spread of a run is found from sums over the values before its two ends. It
does not matter by how much the values are shifted.

* `Sums.Holds`: the sums up to every place;
* `Sums.holds_ofShifted`: the sums of a list of values;
* `Run.spread_eq_squares`: the spread of a run from a sum and a sum of squares;
* `Sums.Holds.spread?_eq`: the spread of a run is computed.
-/

open Finset

namespace Choropleth

/-! ### Arithmetic without rounding -/

namespace Scalar

variable (x y z : ℚ)

theorem rat_ofNat (n : ℕ) : (Scalar.ofNat n : ℚ) = n := rfl

theorem rat_add : Scalar.add x y = x + y := rfl

theorem rat_sub : Scalar.sub x y = x - y := rfl

theorem rat_mul : Scalar.mul x y = x * y := rfl

theorem rat_div : Scalar.div x y = x / y := rfl

theorem rat_mulAdd : Scalar.mulAdd x y z = x * y + z := rfl

theorem rat_neg : Scalar.neg x = -x := rfl

theorem rat_positivePart_of_nonneg {x : ℚ} (h : 0 ≤ x) : Scalar.positivePart x = x := by
  show (if 0 < x then x else 0) = x
  split
  · rfl
  · next hx => exact le_antisymm h (not_lt.1 hx)

theorem rat_less_iff {x y : ℚ} : Scalar.less x y = true ↔ x < y := decide_eq_true_iff

theorem rat_atLeast_iff {x y : ℚ} : Scalar.atLeast x y = true ↔ y ≤ x := decide_eq_true_iff

end Scalar

/-! ### Sums -/

namespace Sums

/-- The sums and the sums of squares of the first values, less a number, up to every place. -/
structure Holds (v : ℕ → ℚ) (shift : ℚ) (n : ℕ) (s : Sums ℚ) : Prop where
  sum_size : s.sum.size = n
  squares_size : s.squares.size = n
  sum : ∀ i < n, s.sum[i]? = some (∑ l ∈ range (i + 1), (v l - shift))
  squares : ∀ i < n, s.squares[i]? = some (∑ l ∈ range (i + 1), (v l - shift) ^ 2)

variable {v : ℕ → ℚ} {shift : ℚ} {n : ℕ} {s : Sums ℚ}

theorem Holds.push (h : s.Holds v shift n) : Holds v shift (n + 1)
    ⟨s.sum.push (∑ l ∈ range (n + 1), (v l - shift)),
      s.squares.push (∑ l ∈ range (n + 1), (v l - shift) ^ 2)⟩ where
  sum_size := by simp [h.sum_size]
  squares_size := by simp [h.squares_size]
  sum i hi := by
    rw [Array.getElem?_push, h.sum_size]
    split
    · next he => rw [he]
    · exact h.sum i (by omega)
  squares i hi := by
    rw [Array.getElem?_push, h.squares_size]
    split
    · next he => rw [he]
    · exact h.squares i (by omega)

theorem Holds.extend (h : s.Holds v shift n) {r : List ℚ} (hr : ∀ i, (hi : i < r.length) →
    r[i] = v (n + i)) :
    (Sums.extend shift s (∑ l ∈ range n, (v l - shift)) (∑ l ∈ range n, (v l - shift) ^ 2)
      r).Holds v shift (n + r.length) := by
  induction r generalizing n s with
  | nil => exact h
  | cons x r ih =>
    obtain rfl : x = v n := hr 0 (Nat.succ_pos _)
    have hrest : ∀ i, (hi : i < r.length) → r[i] = v (n + 1 + i) := fun i hi => by
      rw [Nat.add_right_comm]
      exact hr (i + 1) (Nat.succ_lt_succ hi)
    have hnext := ih h.push hrest
    rw [sum_range_succ, sum_range_succ] at hnext
    rw [Sums.extend, List.length_cons, Nat.add_left_comm, Nat.add_comm]
    simp only [Scalar.rat_add, Scalar.rat_sub, Scalar.rat_mulAdd]
    rw [← sq, add_comm ((v n - shift) ^ 2)]
    exact hnext

theorem holds_nil : Holds v shift 0 ⟨#[], #[]⟩ := ⟨rfl, rfl, nofun, nofun⟩

/-- The sums of a list of values. -/
theorem holds_ofShifted (shift : ℚ) {xs : List ℚ} (hne : xs ≠ []) (h : ∀ i, (hi : i < xs.length) →
    xs[i] = v i) : (ofShifted shift xs).Holds v shift xs.length := by
  obtain ⟨x, r, rfl⟩ := List.exists_cons_of_ne_nil hne
  obtain rfl : x = v 0 := h 0 (Nat.succ_pos _)
  have hrest : ∀ i, (hi : i < r.length) → r[i] = v (1 + i) := fun i hi => by
    rw [Nat.add_comm]
    exact h (i + 1) (Nat.succ_lt_succ hi)
  have hall := (holds_nil : Holds v shift 0 _).push.extend hrest
  simp only [zero_add, sum_range_one] at hall
  rw [ofShifted, List.length_cons, Nat.add_comm]
  simp only [Scalar.rat_sub, Scalar.rat_mul, ← sq]
  exact hall

end Sums

/-! ### Spreads -/

/-- The spread of a run from the sum and the sum of squares of its shifted values. -/
theorem Run.spread_eq_squares {v : ℕ → ℚ} {j e : ℕ} (h : j < e) (shift : ℚ) : spread v j e =
    ∑ l ∈ Ico j e, (v l - shift) ^ 2 - (∑ l ∈ Ico j e, (v l - shift)) ^ 2 / (e - j : ℕ) := by
  have hpos := length_pos h
  have hdeviation := deviation_eq (v := v) h shift
  rw [deviation] at hdeviation
  rw [hdeviation, sum_sub_distrib, sum_eq_mean_mul h, sum_const, Nat.card_Ico, nsmul_eq_mul]
  field_simp
  ring

namespace Sums

variable {v : ℕ → ℚ} {shift : ℚ} {n : ℕ} {s : Sums ℚ}

/-- **The spread of a run is computed**, whatever the shift. -/
theorem Holds.spread?_eq (h : s.Holds v shift n) {j i : ℕ} (hj : j ≤ i) (hi : i < n) :
    s.spread? j i = some (Run.spread v j (i + 1)) := by
  have hspread := Run.spread_eq_squares (v := v) (show j < i + 1 by omega) shift
  rw [spread?, h.sum i hi, h.squares i hi]
  simp only [Option.bind_eq_bind, Option.bind_some]
  by_cases h0 : j = 0
  · subst h0
    rw [range_eq_Ico]
    have hvalue : Scalar.sub (∑ l ∈ Ico 0 (i + 1), (v l - shift) ^ 2)
        (Scalar.div (Scalar.mul (∑ l ∈ Ico 0 (i + 1), (v l - shift))
          (∑ l ∈ Ico 0 (i + 1), (v l - shift))) (Scalar.ofNat (i + 1))) =
        Run.spread v 0 (i + 1) := by
      rw [hspread, Scalar.rat_sub, Scalar.rat_div, Scalar.rat_mul, Scalar.rat_ofNat,
        sq (∑ _ ∈ _, _), Nat.sub_zero]
    rw [if_pos rfl, hvalue, Scalar.rat_positivePart_of_nonneg Run.spread_nonneg]
    rfl
  · rw [if_neg h0, h.sum (j - 1) (by omega), h.squares (j - 1) (by omega), minus?, if_pos hj]
    simp only [Option.bind_some, Nat.sub_add_cancel (Nat.pos_of_ne_zero h0)]
    have hrun (f : ℕ → ℚ) : ∑ l ∈ range (i + 1), f l - ∑ l ∈ range j, f l =
        ∑ l ∈ Ico j (i + 1), f l := (sum_Ico_eq_sub f (by omega)).symm
    have hcount : i - j + 1 = i + 1 - j := by omega
    have hvalue (x y : ℚ) {c : ℚ} (hc : 0 < c) : c * (x / c) * -(x / c) + y = y - x ^ 2 / c := by
      field_simp
      ring
    simp only [Scalar.rat_sub, Scalar.rat_div, Scalar.rat_mul, Scalar.rat_mulAdd, Scalar.rat_neg,
      Scalar.rat_ofNat, hrun, hcount]
    rw [hvalue _ _ (Run.length_pos (show j < i + 1 by omega)), ← hspread,
      Scalar.rat_positivePart_of_nonneg Run.spread_nonneg]
    rfl

end Sums
end Choropleth
