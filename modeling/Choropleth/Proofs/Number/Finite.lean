import Mathlib
import Choropleth.Proofs.Number.Order
import Choropleth.Proofs.Number.Interval

/-!
# The order of finite numbers

Finite numbers can be compared as numbers or in the total order of their bits. The two comparisons
differ in that the second one tells zeros apart.

* `Number.orderKey_of_isFinite`: the place of a finite number by its sign, exponent and significand;
* `Number.orderKey_le_of_rank_le`, `Number.rank_injective`: the total order;
* `Number.lt_iff_orderKey`, `Number.le_iff_orderKey`, `Number.beq_iff_orderKey`: comparisons.
-/

namespace Choropleth

open Float.Model (UnpackedFloat Format)

namespace Number

/-! ### Places by bits -/

theorem toNat_unpackMantissa (x : Float) :
    (@UnpackedFloat.unpackMantissa .binary64 x.toBits.toBitVec).toNat =
      x.toBits.toNat % 2 ^ 52 := by
  simp [UnpackedFloat.unpackMantissa]

theorem toNat_implicit_append (x : Float) :
    (1#1 ++ @UnpackedFloat.unpackMantissa .binary64 x.toBits.toBitVec).toNat =
      2 ^ 52 + x.toBits.toNat % 2 ^ 52 := by
  rw [BitVec.toNat_append, ← Nat.shiftLeft_add_eq_or_of_lt (BitVec.isLt _), toNat_unpackMantissa]
  rfl

theorem toNat_unpackExponent (x : Float) :
    (@UnpackedFloat.unpackExponent .binary64 x.toBits.toBitVec).toNat =
      x.toBits.toNat / 2 ^ 52 % 2 ^ 11 := by
  simp [UnpackedFloat.unpackExponent, Nat.shiftRight_eq_div_pow]

theorem toNat_unpackSign (x : Float) :
    (@UnpackedFloat.unpackSign .binary64 x.toBits.toBitVec).toNat =
      x.toBits.toNat / 2 ^ 63 % 2 := by
  simp [UnpackedFloat.unpackSign, Nat.shiftRight_eq_div_pow]

theorem sign_eq (x : Float) :
    UnpackedFloat.Sign.ofBitVec (@UnpackedFloat.unpackSign .binary64 x.toBits.toBitVec) =
      if isNegative x then .negative else .positive := by
  have hlt := x.toBits.toNat_lt
  have hsign := toNat_unpackSign x
  rw [UnpackedFloat.Sign.ofBitVec, isNegative]
  by_cases h : 2 ^ 63 ≤ x.toBits.toNat
  · rw [if_neg, if_pos (by simpa using h)]
    intro h0
    rw [h0, BitVec.toNat_zero] at hsign
    omega
  · rw [if_pos, if_neg (by simpa using h)]
    rw [← BitVec.toNat_inj, hsign, BitVec.toNat_zero]
    omega

theorem unpackedKey_finite (b : Bool) (m : ℕ) (e : ℤ) (hm : 0 < m) :
    unpackedKey (.finite (if b then .negative else .positive) m e hm) =
      if b then toLex (-1, toLex (-e, -(m : ℤ))) else toLex (1, toLex (e, (m : ℤ))) := by
  cases b <;> rfl

/-- The place of a finite number is given by its sign, its exponent and its significand. -/
theorem orderKey_of_isFinite {x : Float} (h : x.isFinite = true) :
    orderKey x = if (Dyadic.ofFloat x).significand = 0 then toLex (0, toLex (0, 0))
      else if isNegative x then
        toLex (-1, toLex (-(Dyadic.ofFloat x).exponent, -((Dyadic.ofFloat x).significand : ℤ)))
      else
        toLex (1, toLex ((Dyadic.ofFloat x).exponent, ((Dyadic.ofFloat x).significand : ℤ))) := by
  have hm := toNat_unpackMantissa x
  have he := toNat_unpackExponent x
  change (UnpackedFloat.unpack Format.binary64 x.toBits.toBitVec).isFinite = true at h
  change unpackedKey (UnpackedFloat.unpack Format.binary64 x.toBits.toBitVec) = _
  rw [UnpackedFloat.unpack] at h ⊢
  simp only [sign_eq] at h ⊢
  by_cases hmax : @UnpackedFloat.unpackExponent .binary64 x.toBits.toBitVec = -1#11
  · rw [if_pos hmax] at h
    split at h <;> cases h
  rw [if_neg hmax]
  by_cases h0 : @UnpackedFloat.unpackExponent .binary64 x.toBits.toBitVec = 0#11
  · have he0 : x.toBits.toNat / 2 ^ 52 % 2 ^ 11 = 0 := by
      rw [← he, h0]
      rfl
    have hd : Dyadic.ofFloat x = ⟨x.toBits.toNat % 2 ^ 52, -1074, false⟩ := if_pos he0
    rw [if_pos h0, hd]
    by_cases hm0 : @UnpackedFloat.unpackMantissa .binary64 x.toBits.toBitVec = 0#52
    · have hf0 : x.toBits.toNat % 2 ^ 52 = 0 := by
        rw [← hm, hm0]
        rfl
      rw [dif_pos hm0, if_pos hf0]
      rfl
    · have hf0 : ¬x.toBits.toNat % 2 ^ 52 = 0 := fun hf => hm0 (BitVec.toNat_inj.1 (hm.trans hf))
      rw [dif_neg hm0, unpackedKey_finite, hm, h0, if_neg hf0]
      rfl
  · have he0 : ¬x.toBits.toNat / 2 ^ 52 % 2 ^ 11 = 0 := fun hf =>
      h0 (BitVec.toNat_inj.1 (he.trans hf))
    have hd : Dyadic.ofFloat x = ⟨2 ^ 52 + x.toBits.toNat % 2 ^ 52, _, _⟩ := if_neg he0
    rw [if_neg h0, unpackedKey_finite, toNat_implicit_append, he, hd,
      if_neg (show ¬2 ^ 52 + x.toBits.toNat % 2 ^ 52 = 0 by omega)]
    rfl

/-! ### The total order -/

/-- The bits of a number without the sign. -/
def magnitude (x : Float) : ℕ := x.toBits.toNat % 2 ^ 63

theorem magnitude_eq (x : Float) : magnitude x =
    x.toBits.toNat % 2 ^ 52 + 2 ^ 52 * (x.toBits.toNat / 2 ^ 52 % 2 ^ 11) := by
  rw [← Nat.mod_mul]
  rfl

/-- In the magnitude the exponent comes before the significand. -/
theorem ofFloat_le_of_magnitude_le {x y : Float} (h : magnitude x ≤ magnitude y) :
    (Dyadic.ofFloat x).exponent < (Dyadic.ofFloat y).exponent ∨
      (Dyadic.ofFloat x).exponent = (Dyadic.ofFloat y).exponent ∧
        (Dyadic.ofFloat x).significand ≤ (Dyadic.ofFloat y).significand := by
  simp only [magnitude_eq, Dyadic.ofFloat, Nat.pow_eq] at h ⊢
  split <;> split <;> simp only [true_and] <;> omega

theorem significand_eq_zero_iff {x : Float} :
    (Dyadic.ofFloat x).significand = 0 ↔ magnitude x = 0 := by
  simp only [magnitude_eq, Dyadic.ofFloat, Nat.pow_eq]
  split <;> simp only <;> omega

theorem rank_eq (x : Float) :
    rank x = if isNegative x then -1 - (magnitude x : ℤ) else (magnitude x : ℤ) := by
  have hlt := x.toBits.toNat_lt
  simp only [rank, isNegative, magnitude, Nat.pow_eq, decide_eq_true_eq]
  split <;> omega

/-- What comes first in the total order is not the greater number. -/
theorem orderKey_le_of_rank_le {x y : Float} (hx : x.isFinite = true) (hy : y.isFinite = true)
    (h : rank x ≤ rank y) : orderKey x ≤ orderKey y := by
  rw [rank_eq, rank_eq] at h
  simp only [orderKey_of_isFinite hx, orderKey_of_isFinite hy, significand_eq_zero_iff]
  cases hsx : isNegative x <;> cases hsy : isNegative y <;> rw [hsx, hsy] at h <;>
    simp only [if_true, if_false, Bool.false_eq_true] at h ⊢
  · -- of two positive numbers the one with the smaller magnitude is smaller
    have hle := ofFloat_le_of_magnitude_le (show magnitude x ≤ magnitude y by omega)
    split_ifs
    · exact le_rfl
    · simp [Prod.Lex.toLex_le_toLex]
    · omega
    · simpa [Prod.Lex.toLex_le_toLex] using hle
  · omega
  · split_ifs <;> simp [Prod.Lex.toLex_le_toLex]
  · have hle := ofFloat_le_of_magnitude_le (show magnitude y ≤ magnitude x by omega)
    split_ifs
    · exact le_rfl
    · omega
    · simp [Prod.Lex.toLex_le_toLex]
    · simpa [Prod.Lex.toLex_le_toLex, eq_comm] using hle

/-- The total order tells all numbers apart. -/
theorem rank_injective {x y : Float} (h : rank x = rank y) : x = y := by
  have hx := x.toBits.toNat_lt
  have hy := y.toBits.toNat_lt
  have hb : x.toBits.toNat = y.toBits.toNat := by
    simp only [rank, Nat.pow_eq] at h
    split at h <;> split at h <;> omega
  obtain ⟨⟨b, _⟩⟩ := x
  obtain ⟨⟨c, _⟩⟩ := y
  obtain rfl : b = c := UInt64.toNat_inj.1 hb
  rfl

/-! ### Comparisons -/

theorem unpacked_compare_swap (x y : UnpackedFloat) :
    y.compare x = (x.compare y).map Ordering.swap := by
  have hthen (e f : ℤ) (m n : ℕ) : (compare f e).then (compare n m) =
      ((compare e f).then (compare m n)).swap := by
    rw [Ordering.swap_then, Int.compare_swap, Nat.compare_swap]
  cases x with
  | notANumber => cases y <;> rfl
  | infinity s =>
    cases y with
    | infinity t => cases s <;> cases t <;> rfl
    | _ => cases s <;> rfl
  | zero s =>
    cases y with
    | notANumber => rfl
    | zero t => rfl
    | infinity t => cases t <;> rfl
    | finite t n f hn => cases t <;> rfl
  | finite s m e hm =>
    cases y with
    | notANumber => cases s <;> rfl
    | infinity t => cases s <;> cases t <;> rfl
    | zero t => cases s <;> rfl
    | finite t n f hn =>
      cases s <;> cases t <;> first | rfl | (dsimp only [UnpackedFloat.compare]; rw [hthen]; simp)

theorem unpack_ne_notANumber {x : Float} (h : x.isFinite = true) :
    x.toModel.unpack ≠ .notANumber := by
  intro hn
  change x.toModel.unpack.isFinite = true at h
  rw [hn] at h
  cases h

theorem le_iff_orderKey {x y : Float} (hx : x.isFinite = true) (hy : y.isFinite = true) :
    x ≤ y ↔ orderKey x ≤ orderKey y :=
  le_iff.trans (unpacked_le_iff (unpack_ne_notANumber hx) (unpack_ne_notANumber hy))

/-- Finite numbers are compared by their places. -/
theorem compare_eq {x y : Float} (hx : x.isFinite = true) (hy : y.isFinite = true) :
    x.toModel.unpack.compare y.toModel.unpack = some (compare (orderKey x) (orderKey y)) := by
  have hle := (le_iff_orderKey hx hy).symm.trans le_iff
  have hge := (le_iff_orderKey hy hx).symm.trans le_iff
  rw [UnpackedFloat.le] at hle
  rw [UnpackedFloat.le, unpacked_compare_swap] at hge
  cases ho : x.toModel.unpack.compare y.toModel.unpack with
  | none =>
    rw [ho] at hle hge
    exact absurd (le_total (orderKey x) (orderKey y)) (by simp [hle, hge])
  | some o =>
    rw [ho] at hle hge
    cases o with
    | lt => rw [compare_lt_iff_lt.2 (lt_of_not_ge (by simp [hge]))]
    | eq => rw [compare_eq_iff_eq.2 (le_antisymm (by simp [hle]) (by simp [hge]))]
    | gt => rw [compare_gt_iff_gt.2 (lt_of_not_ge (by simp [hle]))]

theorem lt_iff_orderKey {x y : Float} (hx : x.isFinite = true) (hy : y.isFinite = true) :
    x < y ↔ orderKey x < orderKey y := by
  show decide (x.toModel < y.toModel) = true ↔ _
  rw [decide_eq_true_iff]
  show x.toModel.unpack.lt y.toModel.unpack = true ↔ _
  rw [UnpackedFloat.lt, compare_eq hx hy, beq_iff_eq, Option.some.injEq, compare_lt_iff_lt]

theorem beq_iff_orderKey {x y : Float} (hx : x.isFinite = true) (hy : y.isFinite = true) :
    (x == y) = true ↔ orderKey x = orderKey y := by
  show x.toModel.unpack.beq y.toModel.unpack = true ↔ _
  rw [UnpackedFloat.beq, compare_eq hx hy, beq_iff_eq, Option.some.injEq, compare_eq_iff_eq]

end Number
end Choropleth
