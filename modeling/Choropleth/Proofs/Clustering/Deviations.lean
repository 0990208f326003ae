import Mathlib.Algebra.BigOperators.Intervals
import Mathlib.Algebra.BigOperators.Ring.Finset
import Mathlib.Algebra.Order.BigOperators.Group.Finset
import Mathlib.Algebra.Order.Field.Rat
import Mathlib.Tactic.FieldSimp
import Mathlib.Tactic.Linarith
import Mathlib.Tactic.Positivity
import Mathlib.Tactic.Ring

/-!
# Squared deviations

The spread of a run of values is the sum of their squared deviations from the mean. A run is given
by the places `j` to `e - 1` of a sequence. For ascending sequences the spreads of two runs that
overlap are together at most those of their union and their intersection.

* `Run.deviation_eq`: deviations from the mean and from another number;
* `Run.spread_add_le`, `Run.spread_mono`: spreads of parts of a run;
* `Run.eq_of_spread_le`: a run that grows without spreading holds one value only;
* `Run.quadrangle`: the inequality for runs that overlap;
* `Run.flat_of_quadrangle`: where it is an equality, all values are equal.
-/

open Finset

namespace Choropleth
namespace Run

/-- The sum of the squared deviations of a run from a number. -/
def deviation (v : ℕ → ℚ) (j e : ℕ) (μ : ℚ) : ℚ := ∑ l ∈ Ico j e, (v l - μ) ^ 2

/-- The mean of a run. -/
def mean (v : ℕ → ℚ) (j e : ℕ) : ℚ := (∑ l ∈ Ico j e, v l) / (e - j : ℕ)

/-- The sum of the squared deviations of a run from its mean. -/
def spread (v : ℕ → ℚ) (j e : ℕ) : ℚ := deviation v j e (mean v j e)

variable {v : ℕ → ℚ} {j j' m e e' : ℕ}

/-! ### Means and deviations -/

theorem length_pos (h : j < e) : (0 : ℚ) < (e - j : ℕ) := by
  exact_mod_cast Nat.sub_pos_of_lt h

theorem sum_eq_mean_mul (h : j < e) : ∑ l ∈ Ico j e, v l = mean v j e * (e - j : ℕ) := by
  rw [mean, div_mul_cancel₀ _ (length_pos h).ne']

/-- Deviations from another number than the mean are greater by its distance. -/
theorem deviation_eq (h : j < e) (μ : ℚ) :
    deviation v j e μ = spread v j e + (e - j : ℕ) * (mean v j e - μ) ^ 2 := by
  have hterm : ∀ l ∈ Ico j e, (v l - μ) ^ 2 = (v l - mean v j e) ^ 2 +
      (2 * (mean v j e - μ) * v l - (mean v j e - μ) * (mean v j e + μ)) := fun l _ => by ring
  rw [deviation, sum_congr rfl hterm, sum_add_distrib, sum_sub_distrib, ← mul_sum,
    sum_eq_mean_mul (v := v) h, sum_const, Nat.card_Ico, nsmul_eq_mul, spread, deviation]
  ring

theorem le_mean (h : j < e) {x : ℚ} (hx : ∀ l ∈ Ico j e, x ≤ v l) : x ≤ mean v j e := by
  rw [mean, le_div_iff₀ (length_pos h), mul_comm, ← nsmul_eq_mul, ← Nat.card_Ico]
  exact card_nsmul_le_sum _ _ _ hx

theorem mean_le (h : j < e) {x : ℚ} (hx : ∀ l ∈ Ico j e, v l ≤ x) : mean v j e ≤ x := by
  rw [mean, div_le_iff₀ (length_pos h), mul_comm, ← nsmul_eq_mul, ← Nat.card_Ico]
  exact sum_le_card_nsmul _ _ _ hx

theorem deviation_nonneg (μ : ℚ) : 0 ≤ deviation v j e μ := sum_nonneg fun _ _ => sq_nonneg _

theorem deviation_add (hjm : j ≤ m) (hme : m ≤ e) (μ : ℚ) :
    deviation v j m μ + deviation v m e μ = deviation v j e μ :=
  sum_Ico_consecutive _ hjm hme

theorem spread_nonneg : 0 ≤ spread v j e := deviation_nonneg _

theorem spread_of_le (h : e ≤ j) : spread v j e = 0 := by
  rw [spread, deviation, Ico_eq_empty_of_le h, sum_empty]

/-- The mean is the number with the least deviations. -/
theorem spread_le_deviation (μ : ℚ) : spread v j e ≤ deviation v j e μ := by
  rcases Nat.lt_or_ge j e with h | h
  · rw [deviation_eq h]
    have := length_pos h
    exact le_add_of_nonneg_right (by positivity)
  · rw [spread_of_le h]
    exact deviation_nonneg μ

/-- A run of equal values does not spread. -/
theorem spread_eq_zero {x : ℚ} (h : ∀ l ∈ Ico j e, v l = x) : spread v j e = 0 := by
  refine le_antisymm ((spread_le_deviation x).trans_eq ?_) spread_nonneg
  exact sum_eq_zero fun l hl => by rw [h l hl, sub_self, zero_pow two_ne_zero]

theorem spread_succ : spread v j (j + 1) = 0 :=
  spread_eq_zero (x := v j) fun l hl => by
    rw [Nat.Ico_succ_singleton, mem_singleton] at hl
    rw [hl]

/-! ### Parts of runs -/

/-- The parts of a run spread less than the whole. -/
theorem spread_add_le (hjm : j ≤ m) (hme : m ≤ e) :
    spread v j m + spread v m e ≤ spread v j e := by
  calc spread v j m + spread v m e
      ≤ deviation v j m (mean v j e) + deviation v m e (mean v j e) :=
        add_le_add (spread_le_deviation _) (spread_le_deviation _)
    _ = spread v j e := deviation_add hjm hme _

theorem spread_mono (hj : j ≤ j') (he : e ≤ e') : spread v j' e ≤ spread v j e' := by
  rcases Nat.lt_or_ge j' e with h | h
  · have hleft : spread v j j' + spread v j' e' ≤ spread v j e' := spread_add_le hj (by omega)
    have hright : spread v j' e + spread v e e' ≤ spread v j' e' := spread_add_le h.le he
    have h1 : 0 ≤ spread v j j' := spread_nonneg
    have h2 : 0 ≤ spread v e e' := spread_nonneg
    linarith
  · rw [spread_of_le h]
    exact spread_nonneg

/-! ### Runs of ascending values -/

/-- If the values from `m` on are not greater on the average than those before, all of them are
equal. -/
theorem eq_of_sum_le (hv : Monotone v) (hjm : j < m) (hme : m < e)
    (h : (∑ l ∈ Ico m e, v l) * (m - j : ℕ) ≤ (∑ l ∈ Ico j m, v l) * (e - m : ℕ)) :
    v j = v (e - 1) := by
  obtain ⟨e, rfl⟩ := Nat.exists_eq_add_one_of_ne_zero (show e ≠ 0 by omega)
  rw [Nat.add_sub_cancel]
  -- all values are compared with the first one behind the cut
  have hfirst : ∑ l ∈ Ico j m, v l ≤ v j + ((m - j : ℕ) - 1) * v m := by
    have hlength : ((m - j : ℕ) : ℚ) - 1 = (m - (j + 1) : ℕ) := by
      rw [sub_eq_iff_eq_add]
      exact_mod_cast (by omega : m - j = m - (j + 1) + 1)
    rw [sum_eq_sum_Ico_succ_bot hjm, hlength, ← nsmul_eq_mul, ← Nat.card_Ico]
    exact add_le_add_right (sum_le_card_nsmul _ _ _ fun l hl => hv (mem_Ico.1 hl).2.le) _
  have hlast : ((e + 1 - m : ℕ) - 1) * v m + v e ≤ ∑ l ∈ Ico m (e + 1), v l := by
    have hlength : ((e + 1 - m : ℕ) : ℚ) - 1 = (e - m : ℕ) := by
      rw [sub_eq_iff_eq_add]
      exact_mod_cast (by omega : e + 1 - m = e - m + 1)
    rw [sum_Ico_succ_top (by omega), hlength, ← nsmul_eq_mul, ← Nat.card_Ico]
    exact add_le_add_left (card_nsmul_le_sum _ _ _ fun l hl => hv (mem_Ico.1 hl).1) _
  have hp := length_pos hjm
  have hq := length_pos hme
  have hjm' : v j ≤ v m := hv hjm.le
  have hme' : v m ≤ v e := hv (by omega)
  have hbound : ((m - j : ℕ) : ℚ) * (v e - v m) ≤ (e + 1 - m : ℕ) * (v j - v m) := by
    have h1 := mul_le_mul_of_nonneg_right hlast hp.le
    have h2 := mul_le_mul_of_nonneg_right hfirst hq.le
    linarith
  have h1 : ((m - j : ℕ) : ℚ) * (v e - v m) ≤ 0 :=
    hbound.trans (mul_nonpos_of_nonneg_of_nonpos hq.le (by linarith))
  have h2 : (0 : ℚ) ≤ (e + 1 - m : ℕ) * (v j - v m) :=
    (mul_nonneg hp.le (by linarith)).trans hbound
  have he : v e ≤ v m := by
    linarith [nonpos_of_mul_nonpos_right h1 hp]
  have hj : v m ≤ v j := by
    linarith [nonneg_of_mul_nonneg_right h2 hq]
  linarith

theorem sum_add_sum (hjm : j ≤ m) (hme : m ≤ e) :
    ∑ l ∈ Ico j m, v l + ∑ l ∈ Ico m e, v l = ∑ l ∈ Ico j e, v l :=
  sum_Ico_consecutive _ hjm hme

theorem length_add (hjm : j ≤ m) (hme : m ≤ e) :
    ((m - j : ℕ) : ℚ) + (e - m : ℕ) = (e - j : ℕ) := by
  rw [← Nat.cast_add]
  congr 1
  omega

/-- If more values do not raise the mean of a run, all of them are equal. -/
theorem eq_of_mean_le_left (hv : Monotone v) (hjm : j < m) (hme : m < e)
    (h : mean v j e ≤ mean v j m) : v j = v (e - 1) := by
  refine eq_of_sum_le hv hjm hme ?_
  rw [mean, mean, div_le_div_iff₀ (length_pos (hjm.trans hme)) (length_pos hjm),
    ← sum_add_sum hjm.le hme.le, ← length_add hjm.le hme.le] at h
  linarith

/-- If fewer values do not raise the mean of a run, all of them are equal. -/
theorem eq_of_mean_le_right (hv : Monotone v) (hjm : j < m) (hme : m < e)
    (h : mean v m e ≤ mean v j e) : v j = v (e - 1) := by
  refine eq_of_sum_le hv hjm hme ?_
  rw [mean, mean, div_le_div_iff₀ (length_pos hme) (length_pos (hjm.trans hme)),
    ← sum_add_sum hjm.le hme.le, ← length_add hjm.le hme.le] at h
  linarith

theorem eq_of_mul_sq_nonpos {c x y : ℚ} (hc : 0 < c) (h : c * (x - y) ^ 2 ≤ 0) : x = y :=
  sub_eq_zero.1 ((sq_nonpos_iff _).1 (nonpos_of_mul_nonpos_right h hc))

/-- A run that grows without spreading holds one value only. -/
theorem eq_of_spread_le (hv : Monotone v) (h : j < e) (hs : spread v j (e + 1) ≤ spread v j e) :
    v j = v e := by
  have hsplit := deviation_add (v := v) h.le (Nat.le_add_right e 1) (mean v j (e + 1))
  rw [deviation_eq h] at hsplit
  have hlast : 0 ≤ deviation v e (e + 1) (mean v j (e + 1)) := deviation_nonneg _
  have hsq : ((e - j : ℕ) : ℚ) * (mean v j e - mean v j (e + 1)) ^ 2 ≤ 0 := by
    rw [spread] at hs
    linarith
  exact eq_of_mean_le_left hv h (Nat.lt_succ_self e) (eq_of_mul_sq_nonpos (length_pos h) hsq).ge

/-! ### Runs that overlap -/

/-- A number nearer to values above it deviates less from them. -/
theorem deviation_le_of_le {μ μ' : ℚ} (hμ : μ ≤ μ') (h : ∀ l ∈ Ico j e, μ' ≤ v l) :
    deviation v j e μ' ≤ deviation v j e μ :=
  sum_le_sum fun l hl => pow_le_pow_left₀ (by linarith [h l hl]) (by linarith) 2

theorem deviation_le_of_ge {μ μ' : ℚ} (hμ : μ' ≤ μ) (h : ∀ l ∈ Ico j e, v l ≤ μ') :
    deviation v j e μ' ≤ deviation v j e μ :=
  sum_le_sum fun l hl => by nlinarith [h l hl]

/-- If the intersection has the greater mean, the inequality is strict by how far the mean of the
left run lies from that of the union. -/
theorem quadrangle_of_mean_le (hv : Monotone v) (hj : j ≤ j') (h : j' < e) (he : e ≤ e')
    (hm : mean v j e' ≤ mean v j' e) :
    spread v j e + spread v j' e' + (e - j : ℕ) * (mean v j e - mean v j e') ^ 2 ≤
      spread v j e' + spread v j' e := by
  have hunion := deviation_add (v := v) (hj.trans h.le) he (mean v j e')
  have hright := deviation_add (v := v) h.le he (mean v j' e)
  rw [deviation_eq (hj.trans_lt h)] at hunion
  have hspread : spread v j' e' ≤ deviation v j' e' (mean v j' e) := spread_le_deviation _
  have htail : deviation v e e' (mean v j' e) ≤ deviation v e e' (mean v j e') :=
    deviation_le_of_le hm fun l hl =>
      mean_le h fun l' hl' => hv ((mem_Ico.1 hl').2.le.trans (mem_Ico.1 hl).1)
  change _ = spread v j e' at hunion
  change spread v j' e + _ = _ at hright
  linarith

/-- If the intersection has the smaller mean, the inequality is strict by how far the mean of the
right run lies from that of the union. -/
theorem quadrangle_of_le_mean (hv : Monotone v) (hj : j ≤ j') (h : j' < e) (he : e ≤ e')
    (hm : mean v j' e ≤ mean v j e') :
    spread v j e + spread v j' e' + (e' - j' : ℕ) * (mean v j' e' - mean v j e') ^ 2 ≤
      spread v j e' + spread v j' e := by
  have hunion := deviation_add (v := v) hj (h.le.trans he) (mean v j e')
  have hleft := deviation_add (v := v) hj h.le (mean v j' e)
  rw [deviation_eq (h.trans_le he)] at hunion
  have hspread : spread v j e ≤ deviation v j e (mean v j' e) := spread_le_deviation _
  have hhead : deviation v j j' (mean v j' e) ≤ deviation v j j' (mean v j e') :=
    deviation_le_of_ge hm fun l hl =>
      le_mean h fun l' hl' => hv ((mem_Ico.1 hl).2.le.trans (mem_Ico.1 hl').1)
  change _ = spread v j e' at hunion
  change _ + spread v j' e = _ at hleft
  linarith

/-- **Two runs that overlap spread together at most as much as their union and their
intersection.** -/
theorem quadrangle (hv : Monotone v) (hj : j ≤ j') (h : j' < e) (he : e ≤ e') :
    spread v j e + spread v j' e' ≤ spread v j e' + spread v j' e := by
  rcases le_total (mean v j e') (mean v j' e) with hm | hm
  · have hslack := length_pos (hj.trans_lt h)
    refine (le_add_of_nonneg_right ?_).trans (quadrangle_of_mean_le hv hj h he hm)
    positivity
  · have hslack := length_pos (h.trans_le he)
    refine (le_add_of_nonneg_right ?_).trans (quadrangle_of_le_mean hv hj h he hm)
    positivity

/-- **Where the inequality is not strict, all values of the union are equal.** -/
theorem flat_of_quadrangle (hv : Monotone v) (hj : j < j') (h : j' < e) (he : e < e')
    (hq : spread v j e' + spread v j' e ≤ spread v j e + spread v j' e') : v j = v (e' - 1) := by
  rcases le_total (mean v j e') (mean v j' e) with hm | hm
  · have hle := quadrangle_of_mean_le hv hj.le h he.le hm
    have hmean : mean v j e = mean v j e' :=
      eq_of_mul_sq_nonpos (length_pos (hj.trans h)) (by linarith)
    exact eq_of_mean_le_left hv (hj.trans h) he hmean.ge
  · have hle := quadrangle_of_le_mean hv hj.le h he.le hm
    have hmean : mean v j' e' = mean v j e' :=
      eq_of_mul_sq_nonpos (length_pos (h.trans he)) (by linarith)
    exact eq_of_mean_le_right hv hj (h.trans he) hmean.le

end Run
end Choropleth
