import Mathlib.Data.Finset.Lattice.Fold
import Mathlib.Order.Interval.Finset.Nat
import Choropleth.Proofs.Clustering.Deviations

/-!
# Least costs of cuts

The first `e` values of a sequence are cut into runs. The least total spread of the runs is given by
recursion on their number, the last run being taken off. Where the last run of a best cut begins is
bounded by the beginnings for fewer values, for more values and for fewer runs.

* `Run.least`: the least total spread, `Run.candidate`: the one for a given last run;
* `Run.least_mono`, `Run.exchange`: least costs of more values and of more runs;
* `Run.candidate_le_of_le`, `Run.candidate_le_of_ge`, `Run.candidate_succ_le`: what bounds the
  beginnings;
* `Run.candidate_last_le`: where two of the bounds cross, a run of a single value is best.
-/

open Finset

namespace Choropleth
namespace Run

/-- The least total spread of the first `e` values when they are cut into `c + 1` runs. -/
def least (v : ℕ → ℚ) : ℕ → ℕ → ℚ
  | 0, e => spread v 0 e
  | c + 1, e =>
    if h : c + 1 < e then
      (Ico (c + 1) e).inf' (nonempty_Ico.2 h) fun j => least v c j + spread v j e
    else 0

/-- The total spread of the first `e` values when the last run begins at `j` and the values before
it are cut into `c + 1` runs in the best way. -/
def candidate (v : ℕ → ℚ) (c j e : ℕ) : ℚ := least v c j + spread v j e

variable {v : ℕ → ℚ} {c j j' e e' x y z : ℕ}

/-! ### Least costs -/

theorem least_le (hc : c < j) (h : j < e) : least v (c + 1) e ≤ candidate v c j e := by
  have hlt : c + 1 < e := by omega
  rw [least, dif_pos hlt]
  exact inf'_le (fun j => least v c j + spread v j e) (mem_Ico.2 ⟨hc, h⟩)

theorem exists_least (h : c + 1 < e) :
    ∃ j, c < j ∧ j < e ∧ least v (c + 1) e = candidate v c j e := by
  obtain ⟨j, hj, heq⟩ :=
    exists_mem_eq_inf' (nonempty_Ico.2 h) fun j => least v c j + spread v j e
  obtain ⟨hcj, hje⟩ := mem_Ico.1 hj
  refine ⟨j, hcj, hje, ?_⟩
  rw [least, dif_pos h, heq, candidate]

/-- One run more does not cost more. -/
theorem least_succ_le (h : c + 1 < e) : least v (c + 1) e ≤ least v c e := by
  induction c generalizing e with
  | zero =>
    refine (least_le Nat.one_pos h).trans ?_
    exact spread_add_le (Nat.zero_le 1) h.le
  | succ c ih =>
    obtain ⟨j, hcj, hje, heq⟩ := exists_least (v := v) (show c + 1 < e by omega)
    rw [heq]
    by_cases hj : c + 1 < j
    · exact (least_le hj hje).trans (add_le_add_left (ih hj) _)
    · -- the values before the last run are as many as the runs, so that the last run is cut
      obtain rfl : j = c + 1 := by omega
      have hbefore : least v (c + 1) (c + 2) ≤ least v c (c + 1) + spread v (c + 1) (c + 2) :=
        least_le (Nat.lt_succ_self c) (Nat.lt_succ_self _)
      have hparts : spread v (c + 1) (c + 2) + spread v (c + 2) e ≤ spread v (c + 1) e :=
        spread_add_le (Nat.le_succ _) (by omega)
      refine (least_le (j := c + 2) (Nat.lt_succ_self _) (by omega)).trans ?_
      rw [candidate, candidate]
      linarith

theorem least_le_succ (h : c < e) : least v c e ≤ least v c (e + 1) := by
  cases c with
  | zero => exact spread_mono le_rfl (Nat.le_succ e)
  | succ c =>
    obtain ⟨j, hcj, hje, heq⟩ := exists_least (v := v) (show c + 1 < e + 1 by omega)
    rw [heq]
    rcases Nat.lt_succ_iff_lt_or_eq.1 hje with hje | rfl
    · exact (least_le hcj hje).trans (add_le_add_right (spread_mono le_rfl (Nat.le_succ e)) _)
    · rw [candidate, spread_succ, add_zero]
      exact least_succ_le h

/-- More values do not cost less. -/
theorem least_mono (h : c < e) (he : e ≤ e') : least v c e ≤ least v c e' := by
  induction e', he using Nat.le_induction with
  | base => exact le_rfl
  | succ e' he ih => exact ih.trans (least_le_succ (h.trans_le he))

/-- **The more values there are, the more one run more saves.** -/
theorem exchange (hv : Monotone v) (hx : c + 1 < x) (hxy : x ≤ y) :
    least v (c + 1) y + least v c x ≤ least v (c + 1) x + least v c y := by
  induction c generalizing x y with
  | zero =>
    obtain ⟨p, hp, hpx, heq⟩ := exists_least (v := v) hx
    have hq : spread v 0 x + spread v p y ≤ spread v 0 y + spread v p x :=
      quadrangle hv (Nat.zero_le p) hpx hxy
    have hle : least v 1 y ≤ candidate v 0 p y := least_le hp (hpx.trans_le hxy)
    simp only [candidate, least] at heq hle ⊢
    linarith
  | succ c ih =>
    obtain ⟨p, hp, hpx, hleastx⟩ := exists_least (v := v) hx
    obtain ⟨q, hq, hqy, hleasty⟩ := exists_least (v := v) (show c + 1 < y by omega)
    rw [hleastx, hleasty]
    rcases Nat.le_total q p with hqp | hpq
    · -- the last runs overlap, and their ends are exchanged
      have hy : least v (c + 2) y ≤ candidate v (c + 1) p y := least_le hp (hpx.trans_le hxy)
      have hx : least v (c + 1) x ≤ candidate v c q x := least_le hq (hqp.trans_lt hpx)
      have hquad := quadrangle hv hqp hpx hxy
      simp only [candidate] at hy hx ⊢
      linarith
    · -- one of the last runs lies within the other's end, and the values before are exchanged
      have hy : least v (c + 2) y ≤ candidate v (c + 1) q y := least_le (hp.trans_le hpq) hqy
      have hx : least v (c + 1) x ≤ candidate v c p x := least_le (by omega) hpx
      have hbefore := ih hp hpq
      simp only [candidate] at hy hx ⊢
      linarith

/-! ### Bounds for beginnings -/

/-- A later beginning that is as good stays as good for more values. -/
theorem candidate_le_of_le (hv : Monotone v) (hj : j ≤ j') (h : j' < e) (he : e ≤ e')
    (hle : candidate v c j' e ≤ candidate v c j e) :
    candidate v c j' e' ≤ candidate v c j e' := by
  have hq := quadrangle hv hj h he
  simp only [candidate] at hle ⊢
  linarith

/-- An earlier beginning that is as good stays as good for fewer values. -/
theorem candidate_le_of_ge (hv : Monotone v) (hj : j ≤ j') (h : j' < e) (he : e ≤ e')
    (hle : candidate v c j e' ≤ candidate v c j' e') :
    candidate v c j e ≤ candidate v c j' e := by
  have hq := quadrangle hv hj h he
  simp only [candidate] at hle ⊢
  linarith

/-- A later beginning that is as good stays as good with one run more. -/
theorem candidate_succ_le (hv : Monotone v) (hc : c + 1 < j) (hj : j ≤ j')
    (hle : candidate v c j' e ≤ candidate v c j e) :
    candidate v (c + 1) j' e ≤ candidate v (c + 1) j e := by
  have hx := exchange hv hc hj
  simp only [candidate] at hle ⊢
  linarith

/-! ### Where bounds cross -/

theorem spread_eq_zero_of_eq (hv : Monotone v) (h : v j = v (e - 1)) : spread v j e = 0 :=
  spread_eq_zero (x := v j) fun l hl => by
    obtain ⟨hjl, hle⟩ := mem_Ico.1 hl
    exact le_antisymm (h ▸ hv (by omega)) (hv hjl)

/-- A run that reaches into equal values and does not spread further holds those values only. -/
theorem spread_eq_zero_of_le (hv : Monotone v) (hj : j < x) (hxy : x < y)
    (hflat : v x = v (z - 1)) (hs : spread v j y ≤ spread v j x) : spread v j z = 0 := by
  refine spread_eq_zero_of_eq hv ?_
  rw [← hflat]
  exact eq_of_spread_le hv hj ((spread_mono le_rfl hxy).trans hs)

/-- Where some equal values cost nothing, more of them cost nothing. -/
theorem least_le_of_flat (hv : Monotone v) (hx : c < x) (hxy : x < y) (hyz : y ≤ z)
    (hflat : v x = v (z - 1)) (hle : least v c y ≤ least v c x) : least v c z ≤ least v c y := by
  cases c with
  | zero =>
    rw [least, least, spread_eq_zero_of_le hv hx hxy hflat hle]
    exact spread_nonneg
  | succ c =>
    obtain ⟨q, hcq, hqy, heq⟩ := exists_least (v := v) (show c + 1 < y by omega)
    have hz : spread v q z = 0 := by
      rcases Nat.lt_or_ge q x with hqx | hxq
      · refine spread_eq_zero_of_le hv hqx hxy hflat ?_
        have hcand : least v (c + 1) x ≤ candidate v c q x := least_le hcq hqx
        rw [heq] at hle
        simp only [candidate] at hle hcand
        linarith
      · refine spread_eq_zero_of_eq hv (le_antisymm (hv (by omega)) ?_)
        rw [← hflat]
        exact hv hxq
    calc least v (c + 1) z ≤ least v c q + spread v q z := least_le hcq (hqy.trans_le hyz)
      _ ≤ least v c q + spread v q y := by
        rw [hz]
        exact add_le_add_right spread_nonneg _
      _ = least v (c + 1) y := heq.symm

/-- **Where two bounds cross, a last run of a single value is best.** The values in between are
equal, since the two beginnings are then equally good. -/
theorem candidate_last_le (hv : Monotone v) (hc : c < j) (hj : j < j') (h : j' < e) (he : e < e')
    (hleft : candidate v c j' e ≤ candidate v c j e)
    (hright : candidate v c j e' ≤ candidate v c j' e') :
    candidate v c (e - 1) e ≤ candidate v c j' e := by
  simp only [candidate] at hleft hright ⊢
  have hflat : v j = v (e' - 1) := flat_of_quadrangle hv hj h he (by linarith)
  have heq {l : ℕ} (hjl : j ≤ l) (hl : l ≤ e' - 1) : v j = v l :=
    le_antisymm (hv hjl) (hflat ▸ hv hl)
  have hzero {a b : ℕ} (ha : j ≤ a) (hb : b ≤ e') : spread v a b = 0 :=
    spread_eq_zero (x := v j) fun l hl => by
      obtain ⟨hal, hlb⟩ := mem_Ico.1 hl
      exact (heq (ha.trans hal) (by omega)).symm
  rw [hzero hj.le he.le, hzero le_rfl he.le] at hleft
  rw [hzero (by omega) he.le, hzero hj.le he.le]
  exact add_le_add_left (least_le_of_flat hv hc hj (by omega) (heq (by omega) (by omega))
    (by linarith)) 0

end Run
end Choropleth
