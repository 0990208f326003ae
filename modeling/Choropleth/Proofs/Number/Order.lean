import Mathlib.Data.Prod.Lex
import Mathlib.Order.Lattice
import Choropleth.Condition.Row

/-!
# The order of numbers

Stores compare binary64 numbers in a total order, apart from zeros of either sign, which are equal.

* `Number.orderKey`: the place of a number, NaN being the last;
* `Datum.realLe_iff`: the comparison of numbers is that of their places;
* `Datum.realLe_refl`, `Datum.realLe_trans`, `Datum.realLe_total`: it is a total preorder.
-/

namespace Choropleth

open Float.Model (UnpackedFloat)

namespace Number

/-- The place of an unpacked number: its kind and sign, then its exponent, then its significand. -/
def unpackedKey : UnpackedFloat → ℤ ×ₗ ℤ ×ₗ ℤ
  | .infinity .negative => toLex (-2, toLex (0, 0))
  | .finite .negative m e _ => toLex (-1, toLex (-e, -m))
  | .zero _ => toLex (0, toLex (0, 0))
  | .finite .positive m e _ => toLex (1, toLex (e, m))
  | .infinity .positive => toLex (2, toLex (0, 0))
  | .notANumber => toLex (3, toLex (0, 0))

/-- The place of a number. -/
def orderKey (x : Float) : ℤ ×ₗ ℤ ×ₗ ℤ := unpackedKey x.toModel.unpack

theorem isLE_then_iff (e f : ℤ) (m n : ℕ) :
    ((compare e f).then (compare m n)).isLE = true ↔ e < f ∨ e = f ∧ (m : ℤ) ≤ n := by
  rcases lt_trichotomy e f with h | rfl | h
  · simp [compare_lt_iff_lt.2 h, h]
  · rw [compare_eq_iff_eq.2 rfl]
    rcases lt_trichotomy m n with h | rfl | h
    · rw [compare_lt_iff_lt.2 h]
      exact ⟨fun _ => by omega, fun _ => rfl⟩
    · rw [compare_eq_iff_eq.2 rfl]
      exact ⟨fun _ => by omega, fun _ => rfl⟩
    · rw [compare_gt_iff_gt.2 h]
      exact ⟨nofun, fun hc => by omega⟩
  · rw [compare_gt_iff_gt.2 h]
    exact ⟨nofun, fun hc => by omega⟩

theorem isGE_then_iff (e f : ℤ) (m n : ℕ) :
    ((compare e f).then (compare m n)).isGE = true ↔ f < e ∨ e = f ∧ n ≤ m := by
  rcases lt_trichotomy e f with h | rfl | h
  · rw [compare_lt_iff_lt.2 h]
    exact ⟨nofun, fun hc => by omega⟩
  · rw [compare_eq_iff_eq.2 rfl]
    rcases lt_trichotomy m n with h | rfl | h
    · rw [compare_lt_iff_lt.2 h]
      exact ⟨nofun, fun hc => by omega⟩
    · rw [compare_eq_iff_eq.2 rfl]
      exact ⟨fun _ => by omega, fun _ => rfl⟩
    · rw [compare_gt_iff_gt.2 h]
      exact ⟨fun _ => by omega, fun _ => rfl⟩
  · rw [compare_gt_iff_gt.2 h]
    exact ⟨fun _ => by omega, fun _ => rfl⟩

/-- Numbers other than NaN are compared by their places. -/
theorem unpacked_le_iff {x y : UnpackedFloat} (hx : x ≠ .notANumber) (hy : y ≠ .notANumber) :
    x.le y = true ↔ unpackedKey x ≤ unpackedKey y := by
  cases x with
  | notANumber => exact absurd rfl hx
  | infinity s =>
    cases y with
    | notANumber => exact absurd rfl hy
    | infinity t => cases s <;> cases t <;> decide
    | zero t => cases s <;> cases t <;> decide
    | finite t n f hn =>
      cases s <;> cases t <;> dsimp only [UnpackedFloat.le, UnpackedFloat.compare, unpackedKey] <;>
        simp [Prod.Lex.toLex_le_toLex]
  | zero s =>
    cases y with
    | notANumber => exact absurd rfl hy
    | infinity t => cases s <;> cases t <;> decide
    | zero t => cases s <;> cases t <;> decide
    | finite t n f hn =>
      cases s <;> cases t <;> dsimp only [UnpackedFloat.le, UnpackedFloat.compare, unpackedKey] <;>
        simp [Prod.Lex.toLex_le_toLex]
  | finite s m e hm =>
    cases y with
    | notANumber => exact absurd rfl hy
    | infinity t =>
      cases s <;> cases t <;> dsimp only [UnpackedFloat.le, UnpackedFloat.compare, unpackedKey] <;>
        simp [Prod.Lex.toLex_le_toLex]
    | zero t =>
      cases s <;> cases t <;> dsimp only [UnpackedFloat.le, UnpackedFloat.compare, unpackedKey] <;>
        simp [Prod.Lex.toLex_le_toLex]
    | finite t n f hn =>
      cases s <;> cases t <;> dsimp only [UnpackedFloat.le, UnpackedFloat.compare, unpackedKey] <;>
        simp [Prod.Lex.toLex_le_toLex, isLE_then_iff, isGE_then_iff]

theorem unpackedKey_lt_notANumber {x : UnpackedFloat} (hx : x ≠ .notANumber) :
    unpackedKey x < unpackedKey .notANumber := by
  cases x with
  | notANumber => exact absurd rfl hx
  | infinity s => cases s <;> decide
  | zero s => cases s <;> decide
  | finite s m e hm => cases s <;> dsimp only [unpackedKey] <;> simp [Prod.Lex.toLex_lt_toLex]

theorem notANumber_le (x : UnpackedFloat) : UnpackedFloat.notANumber.le x = false := by
  cases x <;> rfl

theorem le_iff {x y : Float} : x ≤ y ↔ x.toModel.unpack.le y.toModel.unpack = true := by
  show decide (x.toModel ≤ y.toModel) = true ↔ _
  rw [decide_eq_true_iff]
  exact Iff.rfl

end Number

namespace Datum

/-- Numbers are compared by their places. -/
theorem realLe_iff {x y : Float} : realLe x y = true ↔ Number.orderKey x ≤ Number.orderKey y := by
  have hnan (x : Float) : x.isNaN = true ↔ x.toModel.unpack = .notANumber := by
    rw [Float.isNaN, Float.Model.isNaN]
    cases x.toModel.unpack with
    | notANumber => exact iff_of_true rfl rfl
    | infinity s => exact iff_of_false Bool.false_ne_true nofun
    | zero s => exact iff_of_false Bool.false_ne_true nofun
    | finite s m e hm => exact iff_of_false Bool.false_ne_true nofun
  rw [realLe, Bool.or_eq_true, decide_eq_true_iff, hnan, Number.le_iff,
    Number.orderKey, Number.orderKey]
  by_cases hy : y.toModel.unpack = .notANumber
  · rw [hy]
    by_cases hx : x.toModel.unpack = .notANumber
    · simp [hx]
    · simp [(Number.unpackedKey_lt_notANumber hx).le]
  by_cases hx : x.toModel.unpack = .notANumber
  · have hlt := Number.unpackedKey_lt_notANumber hy
    rw [hx]
    simp only [hy, false_or, not_le.2 hlt, iff_false, Number.notANumber_le]
    exact Bool.false_ne_true
  · rw [Number.unpacked_le_iff hx hy]
    simp [hy]

theorem realLe_refl (x : Float) : realLe x x = true := realLe_iff.2 le_rfl

theorem realLe_trans {x y z : Float} (hxy : realLe x y = true) (hyz : realLe y z = true) :
    realLe x z = true :=
  realLe_iff.2 ((realLe_iff.1 hxy).trans (realLe_iff.1 hyz))

theorem realLe_total (x y : Float) : realLe x y = true ∨ realLe y x = true := by
  rw [realLe_iff, realLe_iff]
  exact le_total _ _

end Datum
end Choropleth
