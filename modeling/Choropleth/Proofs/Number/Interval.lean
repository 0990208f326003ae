import Mathlib.Algebra.Order.Field.Rat
import Mathlib.Algebra.Order.Field.Power
import Mathlib.Tactic.Linarith
import Mathlib.Tactic.Positivity
import Mathlib.Tactic.Ring
import Mathlib.Tactic.FieldSimp
import Mathlib.Tactic.NormNum
import Choropleth.Number.Shortest

/-!
# The reals that round to a number

A decimal reads back as a binary64 number if it lies in the interval of reals that round to it. The
intervals of different numbers do not meet, so that a decimal reads back as one number at most.

* `Decimal.value`, `Dyadic.value`: the values of decimals and of numbers, as rationals;
* `Dyadic.Covers`: a rational lies in the interval of a number;
* `Dyadic.covers_shortest`: the decimal that is written lies there;
* `Dyadic.IsReduced`: the form in which numbers come;
* `Dyadic.eq_of_covers`: a rational lies in the interval of one number at most.
-/

namespace Choropleth

/-- The value of a decimal. -/
def Decimal.value (d : Decimal) : ℚ := d.digits * 10 ^ d.exponent

namespace Decimal

/-- Comparing scaled numbers compares their values. -/
theorem compareScaled_eq (d : ℕ) (i : ℤ) (n : ℕ) (j : ℤ) :
    compareScaled d i n j = compare ((d : ℚ) * 10 ^ i) (n * 2 ^ j) := by
  -- both sides are multiplied by the denominators of the two powers
  have hpow (b : ℚ) (hb : b ≠ 0) (k : ℤ) : b ^ k.toNat = b ^ k * b ^ (-k).toNat := by
    rw [← zpow_natCast, ← zpow_natCast, ← zpow_add₀ hb]
    congr 1
    omega
  have hc : (0 : ℚ) < 10 ^ (-i).toNat * 2 ^ (-j).toNat := by positivity
  have hl : ((d * Nat.pow 10 i.toNat * Nat.pow 2 (-j).toNat : ℕ) : ℚ) =
      (d : ℚ) * 10 ^ i * (10 ^ (-i).toNat * 2 ^ (-j).toNat) := by
    push_cast [Nat.pow_eq]
    rw [hpow 10 (by norm_num) i]
    ring
  have hr : ((n * Nat.pow 2 j.toNat * Nat.pow 10 (-i).toNat : ℕ) : ℚ) =
      (n : ℚ) * 2 ^ j * (10 ^ (-i).toNat * 2 ^ (-j).toNat) := by
    push_cast [Nat.pow_eq]
    rw [hpow 2 (by norm_num) j]
    ring
  rw [compareScaled]
  rcases lt_trichotomy ((d : ℚ) * 10 ^ i) (n * 2 ^ j) with h | h | h
  · rw [compare_lt_iff_lt.2 h, compare_lt_iff_lt, ← Nat.cast_lt (α := ℚ), hl, hr]
    exact mul_lt_mul_of_pos_right h hc
  · rw [compare_eq_iff_eq.2 h, compare_eq_iff_eq, ← Nat.cast_inj (R := ℚ), hl, hr, h]
  · rw [compare_gt_iff_gt.2 h, compare_gt_iff_gt, ← Nat.cast_lt (α := ℚ), hl, hr]
    exact mul_lt_mul_of_pos_right h hc

/-- Moving zeros from the digits into the exponent keeps the value. -/
theorem value_stripZeros (fuel : ℕ) (d : Decimal) : (d.stripZeros fuel).value = d.value := by
  induction fuel generalizing d with
  | zero => rfl
  | succ fuel ih =>
    rw [stripZeros]
    split
    · next h =>
      rw [ih, value, value, zpow_add₀ (by norm_num : (10 : ℚ) ≠ 0), zpow_one]
      have h10 : ((d.digits / 10 : ℕ) : ℚ) * 10 = d.digits := by
        exact_mod_cast Nat.div_mul_cancel (Nat.dvd_of_mod_eq_zero h.2)
      rw [← h10]
      ring
    · rfl

end Decimal

namespace Dyadic

/-- The value of a number. -/
def value (x : Dyadic) : ℚ := x.significand * 2 ^ x.exponent

/-- Four times the significand at the lower end of the interval. -/
def lowQuarters (x : Dyadic) : ℕ :=
  if x.narrowBelow then 4 * x.significand - 1 else 4 * x.significand - 2

/-- The lower end of the interval of reals that round to a number. -/
def low (x : Dyadic) : ℚ := x.lowQuarters * 2 ^ (x.exponent - 2)

/-- The upper end of the interval of reals that round to a number. -/
def high (x : Dyadic) : ℚ := ((4 * x.significand + 2 : ℕ) : ℚ) * 2 ^ (x.exponent - 2)

/-- A rational lies among the reals that round to a number. The ends count if the significand is
even. -/
def Covers (x : Dyadic) (q : ℚ) : Prop :=
  (x.low < q ∨ x.significand % 2 = 0 ∧ q = x.low) ∧
    (q < x.high ∨ x.significand % 2 = 0 ∧ q = x.high)

/-- A decimal reads back if it lies in the interval. -/
theorem readsBack_iff {x : Dyadic} {d : Decimal} : x.readsBack d = true ↔ x.Covers d.value := by
  simp only [readsBack, Decimal.compareScaled_eq, Bool.and_eq_true, Bool.or_eq_true,
    decide_eq_true_eq, compare_lt_iff_lt, compare_eq_iff_eq, compare_gt_iff_gt, Covers, low, high,
    lowQuarters, Decimal.value]

theorem value_eq_quarters (x : Dyadic) :
    x.value = ((4 * x.significand : ℕ) : ℚ) * 2 ^ (x.exponent - 2) := by
  rw [value, zpow_sub₀ (by norm_num : (2 : ℚ) ≠ 0)]
  push_cast
  ring

/-- A number lies in its own interval. -/
theorem covers_value (x : Dyadic) : x.Covers x.value := by
  have hu : (0 : ℚ) < 2 ^ (x.exponent - 2) := by positivity
  rw [Covers, value_eq_quarters, low, high, mul_lt_mul_iff_left₀ hu, mul_lt_mul_iff_left₀ hu,
    Nat.cast_lt, Nat.cast_lt, lowQuarters]
  refine ⟨?_, .inl (by omega)⟩
  rcases Nat.eq_zero_or_pos x.significand with h | h
  · exact .inr ⟨by omega, by simp [h]⟩
  · exact .inl (by split <;> omega)

theorem value_exactDecimal (x : Dyadic) : x.exactDecimal.value = x.value := by
  rw [Decimal.value, exactDecimal, value]
  push_cast [Nat.pow_eq]
  rw [zpow_neg, zpow_natCast, show (10 : ℚ) = 2 * 5 by norm_num, mul_pow]
  have h2 : (2 : ℚ) ^ x.exponent = 2 ^ x.exponent.toNat * (2 ^ (-x.exponent).toNat)⁻¹ := by
    rw [← zpow_natCast, ← zpow_natCast, ← zpow_neg, ← zpow_add₀ (by norm_num)]
    congr 1
    omega
  rw [h2]
  field_simp

theorem covers_of_onGrid {tie : Tie} {x : Dyadic} {k : ℤ} {d : Decimal}
    (h : onGrid? tie x k = some d) : x.Covers d.value := by
  rw [← readsBack_iff]
  rw [onGrid?] at h
  split at h
  · next hn hs =>
    obtain rfl := Option.some.inj h
    rw [nearer]
    split <;> [exact hn; exact hs; skip]
    split <;> [exact hn; exact hs]
  · next hn _ => exact Option.some.inj h ▸ hn
  · next _ hs => exact Option.some.inj h ▸ hs
  · cases h

/-- The decimal that is written for a number reads back as it. -/
theorem covers_shortest (tie : Tie) (x : Dyadic) : x.Covers (x.shortest tie).value := by
  rw [shortest]
  split
  · next h =>
    have hv := x.covers_value
    rw [value, h, Nat.cast_zero, zero_mul] at hv
    simpa [Decimal.value] using hv
  · rw [Decimal.value_stripZeros]
    cases h : (List.range 17).findSome? fun n : ℕ => onGrid? tie x (x.scale - 1 - n) with
    | none => simpa [value_exactDecimal] using x.covers_value
    | some d =>
      obtain ⟨n, -, hn⟩ := List.exists_of_findSome?_eq_some h
      simpa using covers_of_onGrid hn

/-- The form in which binary64 numbers come: a significand of 53 bits, or of fewer if the exponent
is the least. The gap below is narrow at the powers of two. -/
structure IsReduced (x : Dyadic) : Prop where
  lt : x.significand < 2 ^ 53
  le : x.exponent ≠ -1074 → 2 ^ 52 ≤ x.significand
  least : -1074 ≤ x.exponent
  narrow : x.narrowBelow = true ↔ x.significand = 2 ^ 52 ∧ x.exponent ≠ -1074

/-- The interval of `x` ends before that of `y` begins, or they meet in an end that does not
count for both. -/
def IsBelow (x y : Dyadic) : Prop :=
  x.high < y.low ∨ x.high = y.low ∧ ¬(x.significand % 2 = 0 ∧ y.significand % 2 = 0)

theorem IsBelow.not_covers {x y : Dyadic} (h : x.IsBelow y) {q : ℚ} (hx : x.Covers q) :
    ¬y.Covers q := by
  intro hy
  have hxq : q ≤ x.high := hx.2.elim le_of_lt fun h => h.2.le
  have hyq : y.low ≤ q := hy.1.elim le_of_lt fun h => h.2.ge
  rcases h with h | ⟨he, ho⟩
  · exact absurd (hyq.trans hxq) (not_le.2 h)
  · have hq : q = x.high := le_antisymm hxq (he ▸ hyq)
    refine ho ⟨(hx.2.resolve_left ?_).1, (hy.1.resolve_left ?_).1⟩
    · exact not_lt.2 hq.ge
    · exact not_lt.2 (hq.trans he).le

/-- Below a number lie the numbers with a smaller exponent. -/
theorem isBelow_of_exponent_lt {x y : Dyadic} (hx : x.IsReduced) (hy : y.IsReduced)
    (h : x.exponent < y.exponent) : x.IsBelow y := by
  obtain ⟨k, hk⟩ := Int.le.dest (Int.add_one_le_of_lt h)
  have hleast := hx.least
  have hle := hy.le (by omega)
  have hlt := hx.lt
  have hu : (0 : ℚ) < 2 ^ (x.exponent - 2) := by positivity
  have hlow : y.low = ((y.lowQuarters * 2 ^ (k + 1) : ℕ) : ℚ) * 2 ^ (x.exponent - 2) := by
    rw [low, ← hk, show x.exponent + 1 + k - 2 = ((k + 1 : ℕ) : ℤ) + (x.exponent - 2) by
      push_cast; ring, zpow_add₀ (by norm_num), zpow_natCast]
    push_cast
    ring
  have hq : 2 ^ 54 - 1 ≤ y.lowQuarters := by
    have hn := hy.narrow
    rw [lowQuarters]
    split
    · omega
    · next hb =>
      have : y.significand ≠ 2 ^ 52 := fun hs => hb (hn.2 ⟨hs, by omega⟩)
      omega
  have hmul : (2 ^ 54 - 1) * 2 ≤ y.lowQuarters * 2 ^ (k + 1) :=
    Nat.mul_le_mul hq (Nat.le_self_pow (Nat.succ_ne_zero k) 2)
  rw [IsBelow, hlow, high, mul_lt_mul_iff_left₀ hu, mul_left_inj' hu.ne', Nat.cast_lt,
    Nat.cast_inj]
  omega

/-- Among numbers with one exponent those with smaller significands lie below. -/
theorem isBelow_of_significand_lt {x y : Dyadic} (he : x.exponent = y.exponent)
    (h : x.significand < y.significand) : x.IsBelow y := by
  have hu : (0 : ℚ) < 2 ^ (y.exponent - 2) := by positivity
  rw [IsBelow, low, high, he, mul_lt_mul_iff_left₀ hu, mul_left_inj' hu.ne', Nat.cast_lt,
    Nat.cast_inj, lowQuarters]
  split <;> omega

/-- **A rational rounds to one number at most.** -/
theorem eq_of_covers {x y : Dyadic} (hx : x.IsReduced) (hy : y.IsReduced) {q : ℚ}
    (hxq : x.Covers q) (hyq : y.Covers q) : x = y := by
  have he : x.exponent = y.exponent := by
    rcases lt_trichotomy x.exponent y.exponent with h | h | h
    · exact absurd hyq ((isBelow_of_exponent_lt hx hy h).not_covers hxq)
    · exact h
    · exact absurd hxq ((isBelow_of_exponent_lt hy hx h).not_covers hyq)
  have hs : x.significand = y.significand := by
    rcases lt_trichotomy x.significand y.significand with h | h | h
    · exact absurd hyq ((isBelow_of_significand_lt he h).not_covers hxq)
    · exact h
    · exact absurd hxq ((isBelow_of_significand_lt he.symm h).not_covers hyq)
  have hn : x.narrowBelow = y.narrowBelow := by
    rw [Bool.eq_iff_iff, hx.narrow, hy.narrow, he, hs]
  cases x
  cases y
  simp_all

/-! ### The numbers as bits -/

theorem isReduced_ofFloat (x : Float) : (ofFloat x).IsReduced := by
  simp only [ofFloat, Nat.pow_eq]
  split
  · exact ⟨by simp only; omega, fun h => absurd rfl h, by simp, by simp⟩
  · refine ⟨by simp only; omega, fun _ => by simp only; omega, by simp only; omega, ?_⟩
    simp only [Bool.and_eq_true, decide_eq_true_eq]
    omega

/-- A number is given by its sign and by its value. -/
theorem eq_of_ofFloat_eq {x y : Float} (hs : Number.isNegative x = Number.isNegative y)
    (h : ofFloat x = ofFloat y) : x = y := by
  have hx := x.toBits.toNat_lt
  have hy := y.toBits.toNat_lt
  have hb : x.toBits.toNat = y.toBits.toNat := by
    simp only [Number.isNegative, decide_eq_decide, Nat.pow_eq] at hs
    simp only [ofFloat, Nat.pow_eq] at h
    split at h <;> split at h <;> simp only [Dyadic.mk.injEq] at h <;> omega
  obtain ⟨⟨b, _⟩⟩ := x
  obtain ⟨⟨c, _⟩⟩ := y
  obtain rfl : b = c := UInt64.toNat_inj.1 hb
  rfl

end Dyadic
end Choropleth
