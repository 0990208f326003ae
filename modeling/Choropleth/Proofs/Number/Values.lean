import Mathlib
import Choropleth.Proofs.Number.Finite
import Choropleth.Proofs.Number.ReadBack

/-!
# The values of numbers

A finite number stands for a rational, and comparing numbers compares the rationals. The order of a
store puts the infinities and NaN below and above all rationals.

* `Dyadic.value_le_value_iff`: values without sign, by exponent and significand;
* `Number.value`: the value of a finite number;
* `Number.le_iff_value`, `Number.lt_iff_value`, `Number.beq_iff_value`: comparisons;
* `Number.value_lesser`, `Number.value_greater`: minimum and maximum;
* `Number.extent`: the place of any number among the rationals, as a store has it.
-/

namespace Choropleth

namespace Dyadic

variable {x y : Dyadic}

theorem value_nonneg (x : Dyadic) : 0 ≤ x.value := by
  rw [value]
  positivity

theorem value_eq_zero_iff : x.value = 0 ↔ x.significand = 0 := by
  rw [value, mul_eq_zero, or_iff_left (zpow_ne_zero _ two_ne_zero), Nat.cast_eq_zero]

/-- A number lies between the ends of its own interval. -/
theorem value_lt_of_isBelow (h : x.IsBelow y) : x.value < y.value := by
  have hx : x.value < x.high := by
    rw [value_eq_quarters, high]
    gcongr
    omega
  have hy : y.low ≤ y.value := y.covers_value.1.elim le_of_lt fun h => h.2.ge
  exact hx.trans_le ((h.elim le_of_lt fun h => h.1.le).trans hy)

/-- The exponent comes before the significand. -/
def place (x : Dyadic) : ℤ ×ₗ ℤ := toLex (x.exponent, (x.significand : ℤ))

theorem value_lt_of_place_lt (hx : x.IsReduced) (hy : y.IsReduced) (h : x.place < y.place) :
    x.value < y.value := by
  rcases Prod.Lex.toLex_lt_toLex.1 h with he | ⟨he, hs⟩
  · exact value_lt_of_isBelow (isBelow_of_exponent_lt hx hy he)
  · exact value_lt_of_isBelow (isBelow_of_significand_lt he (Int.ofNat_lt.1 hs))

theorem value_le_value_iff (hx : x.IsReduced) (hy : y.IsReduced) :
    x.value ≤ y.value ↔ x.place ≤ y.place := by
  rcases lt_trichotomy x.place y.place with h | h | h
  · exact iff_of_true (value_lt_of_place_lt hx hy h).le h.le
  · obtain ⟨he, hs⟩ := Prod.ext_iff.1 h
    refine iff_of_true (le_of_eq ?_) h.le
    rw [value, value, show x.exponent = y.exponent from he, Int.ofNat_inj.1 hs]
  · exact iff_of_false (not_le.2 (value_lt_of_place_lt hy hx h)) (not_le.2 h)

end Dyadic

namespace Number

/-- The value of a finite number. -/
def value (x : Float) : ℚ :=
  if isNegative x then -(Dyadic.ofFloat x).value else (Dyadic.ofFloat x).value

variable {x y : Float}

/-- The place of a finite number begins with the sign of its value. -/
theorem orderKey_cases (h : x.isFinite = true) :
    (value x < 0 ∧ value x = -(Dyadic.ofFloat x).value ∧
      orderKey x = toLex (-1, toLex (-(Dyadic.ofFloat x).exponent,
        -((Dyadic.ofFloat x).significand : ℤ)))) ∨
    (value x = 0 ∧ orderKey x = toLex (0, toLex (0, 0))) ∨
    0 < value x ∧ value x = (Dyadic.ofFloat x).value ∧
      orderKey x = toLex (1, (Dyadic.ofFloat x).place) := by
  rw [orderKey_of_isFinite h, value]
  by_cases h0 : (Dyadic.ofFloat x).significand = 0
  · refine .inr (.inl ⟨?_, if_pos h0⟩)
    rw [Dyadic.value_eq_zero_iff.2 h0, neg_zero, ite_self]
  · have hpos : 0 < (Dyadic.ofFloat x).value :=
      lt_of_le_of_ne (Dyadic.value_nonneg _) fun hv => h0 (Dyadic.value_eq_zero_iff.1 hv.symm)
    rw [if_neg h0]
    split_ifs
    · exact .inl ⟨neg_neg_of_pos hpos, rfl, rfl⟩
    · exact .inr (.inr ⟨hpos, rfl, rfl⟩)

/-- Finite numbers have their places in the order of their values. -/
theorem orderKey_le_iff_value (hx : x.isFinite = true) (hy : y.isFinite = true) :
    orderKey x ≤ orderKey y ↔ value x ≤ value y := by
  have hle := Dyadic.value_le_value_iff (Dyadic.isReduced_ofFloat x) (Dyadic.isReduced_ofFloat y)
  have hge := Dyadic.value_le_value_iff (Dyadic.isReduced_ofFloat y) (Dyadic.isReduced_ofFloat x)
  rcases orderKey_cases hx with ⟨vx, ex, kx⟩ | ⟨vx, kx⟩ | ⟨vx, ex, kx⟩ <;>
    rcases orderKey_cases hy with ⟨vy, ey, ky⟩ | ⟨vy, ky⟩ | ⟨vy, ey, ky⟩ <;> rw [kx, ky]
  case inl.inl =>
    -- of two negative numbers the one with the larger magnitude is smaller
    rw [ex, ey, neg_le_neg_iff, hge, Dyadic.place, Dyadic.place]
    simp [Prod.Lex.toLex_le_toLex, eq_comm]
  case inr.inr.inr.inr =>
    rw [ex, ey, hle]
    simp [Prod.Lex.toLex_le_toLex]
  -- numbers of different signs
  case inl.inr.inl | inl.inr.inr | inr.inl.inr.inr | inr.inl.inr.inl =>
    exact iff_of_true (by simp [Prod.Lex.toLex_le_toLex]) (by linarith)
  all_goals exact iff_of_false (by simp [Prod.Lex.toLex_le_toLex]) (by linarith)

/-! ### Comparisons -/

theorem le_iff_value (hx : x.isFinite = true) (hy : y.isFinite = true) :
    x ≤ y ↔ value x ≤ value y :=
  (le_iff_orderKey hx hy).trans (orderKey_le_iff_value hx hy)

theorem lt_iff_value (hx : x.isFinite = true) (hy : y.isFinite = true) :
    x < y ↔ value x < value y := by
  rw [lt_iff_orderKey hx hy, ← not_le, ← not_le, orderKey_le_iff_value hy hx]

theorem beq_iff_value (hx : x.isFinite = true) (hy : y.isFinite = true) :
    (x == y) = true ↔ value x = value y := by
  rw [beq_iff_orderKey hx hy, le_antisymm_iff, le_antisymm_iff, orderKey_le_iff_value hx hy,
    orderKey_le_iff_value hy hx]

/-! ### Minimum and maximum -/

theorem lesser_eq_or (x y : Float) : lesser x y = x ∨ lesser x y = y := by
  unfold lesser
  split_ifs <;> simp

theorem greater_eq_or (x y : Float) : greater x y = x ∨ greater x y = y := by
  unfold greater
  split_ifs <;> simp

theorem isNaN_of_isFinite (h : x.isFinite = true) : x.isNaN = false :=
  (Notation.unpacked_of_isFinite h).1

theorem value_lesser (hx : x.isFinite = true) (hy : y.isFinite = true) :
    value (lesser x y) = min (value x) (value y) := by
  rw [lesser, isNaN_of_isFinite hx, if_neg Bool.false_ne_true]
  split_ifs with h
  · exact (min_eq_right ((lt_iff_value hy hx).1 h).le).symm
  · exact (min_eq_left (not_lt.1 fun hlt => h ((lt_iff_value hy hx).2 hlt))).symm

theorem value_greater (hx : x.isFinite = true) (hy : y.isFinite = true) :
    value (greater x y) = max (value x) (value y) := by
  rw [greater, isNaN_of_isFinite hx, if_neg Bool.false_ne_true]
  split_ifs with h
  · exact (max_eq_right ((lt_iff_value hx hy).1 h).le).symm
  · exact (max_eq_left (not_lt.1 fun hlt => h ((lt_iff_value hx hy).2 hlt))).symm

/-! ### Numbers that are not finite -/

/-- The place of a number among the rationals, in the order of a store: a finite number at its
value, the other numbers below or above all rationals. -/
def extent (x : Float) : WithBot (WithTop ℚ) :=
  if x.isFinite then ((value x : WithTop ℚ) : WithBot (WithTop ℚ)) else if x < 0 then ⊥ else ⊤

theorem extent_of_isFinite (h : x.isFinite = true) :
    extent x = ((value x : WithTop ℚ) : WithBot (WithTop ℚ)) := if_pos h

/-- A number that is not finite lies below or above all finite numbers. -/
theorem extent_of_not_isFinite (h : x.isFinite = false) :
    (extent x = ⊥ ∧ ∀ y : Float, y.isFinite = true → orderKey x < orderKey y) ∨
      extent x = ⊤ ∧ ∀ y : Float, y.isFinite = true → orderKey y < orderKey x := by
  have hkey (y : Float) (hy : y.isFinite = true) :
      toLex (-2, toLex (0, 0)) < orderKey y ∧ orderKey y < toLex (2, toLex (0, 0)) := by
    rcases orderKey_cases hy with ⟨-, -, ky⟩ | ⟨-, ky⟩ | ⟨-, -, ky⟩ <;> rw [ky] <;>
      simp [Prod.Lex.toLex_lt_toLex]
  have hlt : x < 0 ↔ x.toModel.unpack.lt (.zero .positive) = true := by
    show decide (x.toModel < (0 : Float).toModel) = true ↔ _
    rw [decide_eq_true_iff]
    exact Iff.rfl
  have hfin : x.toModel.unpack.isFinite = false := h
  rw [extent, h, if_neg Bool.false_ne_true]
  unfold orderKey at hkey ⊢
  cases hu : x.toModel.unpack with
  | notANumber =>
    rw [hu] at hlt
    refine .inr ⟨if_neg (by rw [hlt]; decide), fun y hy => (hkey y hy).2.trans (by decide)⟩
  | infinity s =>
    rw [hu] at hlt
    cases s with
    | negative => exact .inl ⟨if_pos (hlt.2 rfl), fun y hy => (hkey y hy).1⟩
    | positive =>
      exact .inr ⟨if_neg (by rw [hlt]; decide), fun y hy => (hkey y hy).2⟩
  | zero s => rw [hu] at hfin; cases hfin
  | finite s m e hm => rw [hu] at hfin; cases hfin

/-- Where one of two numbers is finite, the order of a store is that of the places. -/
theorem realLe_iff_extent (h : x.isFinite = true ∨ y.isFinite = true) :
    Datum.realLe x y = true ↔ extent x ≤ extent y := by
  rw [Datum.realLe_iff]
  cases hx : x.isFinite with
  | false =>
    have hy := h.resolve_left (by simp [hx])
    rcases extent_of_not_isFinite hx with ⟨hext, hlt⟩ | ⟨hext, hlt⟩
    · exact iff_of_true (hlt y hy).le (by simp [hext])
    · refine iff_of_false (not_le.2 (hlt y hy)) ?_
      rw [hext, extent_of_isFinite hy, top_le_iff]
      exact fun htop => WithTop.coe_ne_top (WithBot.coe_inj.1 htop)
  | true =>
    cases hy : y.isFinite with
    | true =>
      rw [extent_of_isFinite hx, extent_of_isFinite hy, WithBot.coe_le_coe, WithTop.coe_le_coe,
        orderKey_le_iff_value hx hy]
    | false =>
      rcases extent_of_not_isFinite hy with ⟨hext, hlt⟩ | ⟨hext, hlt⟩
      · refine iff_of_false (not_le.2 (hlt x hx)) ?_
        rw [hext, extent_of_isFinite hx, le_bot_iff]
        exact WithBot.coe_ne_bot
      · exact iff_of_true (hlt x hx).le (by simp [hext])

end Number
end Choropleth
