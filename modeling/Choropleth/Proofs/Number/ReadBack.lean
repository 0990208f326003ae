import Choropleth.Number.Notation
import Choropleth.Number.Reading
import Choropleth.Proofs.Number.Interval

/-!
# Written numbers read back

A decimal is written with or without an exponent, and what is written is read as a decimal of the
same value. Together with the intervals of numbers this makes the written form of a finite number
its own.

* `Number.readDigits?_toDigits`: the digits of a natural number;
* `Number.ReadsExponent`, `Number.readScientific?_whole`, `Number.readScientific?_point`: the parts
  of a written decimal;
* `Decimal.readScientific?_write`: a written decimal is read with its value;
* `Number.Spells`, `Number.Spells.eq`: a text spells one number at most;
* `Notation.spells_write`: what is written for a finite number spells it.
-/

namespace Choropleth

namespace Number

/-! ### Digits -/

theorem isDigit_eq (c : Char) : isDigit c = c.isDigit := by
  rw [Bool.eq_iff_iff]
  simp only [isDigit, Char.isDigit, Bool.and_eq_true, decide_eq_true_eq]
  rfl

theorem isDigit_of_mem_toDigits {n : ℕ} {c : Char} (h : c ∈ Nat.toDigits 10 n) :
    isDigit c = true := by
  rw [isDigit_eq]
  exact Nat.isDigit_of_mem_toDigits (by decide) (by decide) h

theorem digitsValue_eq (ds : List Char) : digitsValue ds = Nat.ofDigitChars 10 ds 0 :=
  Nat.ofDigitChars_eq_foldl.symm

theorem digitsValue_toDigits (n : ℕ) : digitsValue (Nat.toDigits 10 n) = n := by
  rw [digitsValue_eq, Nat.ofDigitChars_ten_toDigits]

/-- Zeros at the end of digits multiply by powers of ten. -/
theorem digitsValue_append_zeros (ds : List Char) (k : ℕ) :
    digitsValue (ds ++ List.replicate k '0') = digitsValue ds * 10 ^ k := by
  rw [digitsValue_eq, digitsValue_eq, Nat.ofDigitChars_append, Nat.ofDigitChars_replicate_zero,
    Nat.mul_comm]

/-- Zeros in front of digits do not count. -/
theorem digitsValue_zeros_append (k : ℕ) (ds : List Char) :
    digitsValue (List.replicate k '0' ++ ds) = digitsValue ds := by
  rw [digitsValue_eq, digitsValue_eq, Nat.ofDigitChars_append, Nat.ofDigitChars_replicate_zero,
    Nat.mul_zero]

theorem readDigits?_of_digits {ds : List Char} (hne : ds ≠ []) (h : ∀ c ∈ ds, isDigit c = true) :
    readDigits? ds = some (digitsValue ds) := by
  rw [readDigits?, if_pos]
  simpa [hne] using h

theorem readDigits?_toDigits (n : ℕ) : readDigits? (Nat.toDigits 10 n) = some n := by
  rw [readDigits?_of_digits Nat.toDigits_ne_nil fun c hc => isDigit_of_mem_toDigits hc,
    digitsValue_toDigits]

/-! ### The parts of a decimal -/

/-- What follows the digits of a decimal: nothing, or an exponent with its sign. -/
inductive ReadsExponent : List Char → ℤ → Prop
  | none : ReadsExponent [] 0
  | plus {ds : List Char} {n : ℕ} (h : readDigits? ds = some n) : ReadsExponent ('e' :: '+' :: ds) n
  | minus {ds : List Char} {n : ℕ} (h : readDigits? ds = some n) :
      ReadsExponent ('e' :: '-' :: ds) (-n)

/-- Characters of one kind at the front of a text end where something else follows. -/
theorem span_append {p : Char → Bool} {a s : List Char} (h : ∀ c ∈ a, p c = true)
    (hs : ∀ c ∈ s.head?, p c = false) :
    (a ++ s).takeWhile p = a ∧ (a ++ s).dropWhile p = s := by
  rw [List.takeWhile_append_of_pos h, List.dropWhile_append_of_pos h]
  cases s with
  | nil => simp
  | cons c s =>
    have hc := hs c rfl
    simp [hc]

theorem ReadsExponent.head {s : List Char} {e : ℤ} (h : ReadsExponent s e) :
    ∀ c ∈ s.head?, isDigit c = false ∧ c ≠ '.' := by
  cases h <;> simp [isDigit]

/-- A decimal without a point. -/
theorem readScientific?_whole {ds s : List Char} {e : ℤ} (hne : ds ≠ [])
    (h : ∀ c ∈ ds, isDigit c = true) (hs : ReadsExponent s e) :
    readScientific? (ds ++ s) = some (digitsValue ds, e) := by
  obtain ⟨ht, hd⟩ := span_append h fun c hc => (hs.head c hc).1
  rw [readScientific?, ht, hd]
  cases hs with
  | none => simp [hne]
  | plus hn => simp [hne, hn]
  | minus hn => simp [hne, hn]

/-- A decimal with a point after its first digits. -/
theorem readScientific?_point {w f s : List Char} {e : ℤ} (hne : w ≠ [])
    (h : ∀ c ∈ w, isDigit c = true) (hf : ∀ c ∈ f, isDigit c = true) (hs : ReadsExponent s e) :
    readScientific? (w ++ '.' :: (f ++ s)) = some (digitsValue (w ++ f), e - f.length) := by
  obtain ⟨ht, hd⟩ := span_append h (s := '.' :: (f ++ s)) (by simp [isDigit])
  obtain ⟨ht', hd'⟩ := span_append hf fun c hc => (hs.head c hc).1
  rw [readScientific?, ht, hd]
  simp only [ht', hd']
  cases hs with
  | none => simp [hne]
  | plus hn => simp [hne, hn]
  | minus hn => simp [hne, hn]

end Number

namespace Decimal

open Number

theorem isDigit_of_mem_digitList {d : Decimal} {c : Char} (h : c ∈ d.digitList) :
    isDigit c = true :=
  isDigit_of_mem_toDigits h

theorem digitsValue_digitList (d : Decimal) : digitsValue d.digitList = d.digits :=
  digitsValue_toDigits d.digits

theorem digitList_ne_nil (d : Decimal) : d.digitList ≠ [] := Nat.toDigits_ne_nil

theorem isDigit_of_mem_zeros {n : ℕ} {c : Char} (h : c ∈ List.replicate n '0') :
    isDigit c = true := by
  rw [List.eq_of_mem_replicate h]
  decide

theorem value_eq_of_exponent_nonneg {d : Decimal} (h : 0 ≤ d.exponent) :
    d.value = (d.digits * 10 ^ d.exponent.toNat : ℕ) := by
  obtain ⟨k, hk⟩ := Int.eq_ofNat_of_zero_le h
  rw [value, hk]
  push_cast
  rw [Int.toNat_natCast, zpow_natCast]

/-- Digits are read with their value whether or not `.0` follows them. -/
theorem readScientific?_whole_end {e ds : List Char} (he : e = [] ∨ e = ['.', '0']) (hne : ds ≠ [])
    (h : ∀ c ∈ ds, isDigit c = true) :
    ∃ r : Decimal, readScientific? (ds ++ e) = some (r.digits, r.exponent) ∧
      r.value = digitsValue ds := by
  rcases he with rfl | rfl
  · refine ⟨⟨digitsValue ds, 0⟩, readScientific?_whole hne h .none, ?_⟩
    rw [value, zpow_zero, mul_one]
  · refine ⟨⟨digitsValue (ds ++ ['0']), 0 - 1⟩,
      readScientific?_point (f := ['0']) hne h (by simp [isDigit]) .none, ?_⟩
    have hz := digitsValue_append_zeros ds 1
    rw [List.replicate_one, pow_one] at hz
    rw [value, hz, zero_sub, zpow_neg_one]
    push_cast
    exact mul_inv_cancel_right₀ (by norm_num) _

/-- A decimal without an exponent is read with its value. -/
theorem readScientific?_plain {e : List Char} (he : e = [] ∨ e = ['.', '0']) (d : Decimal) :
    ∃ r : Decimal, readScientific? (d.plain e) = some (r.digits, r.exponent) ∧
      r.value = d.value := by
  rw [plain]
  split
  · next h =>
    -- a whole number: the zeros of the exponent are written out
    have hr := readScientific?_whole_end he
      (List.append_ne_nil_of_left_ne_nil d.digitList_ne_nil (List.replicate d.exponent.toNat '0'))
      fun c hc => (List.mem_append.1 hc).elim isDigit_of_mem_digitList isDigit_of_mem_zeros
    rwa [digitsValue_append_zeros, digitsValue_digitList, ← value_eq_of_exponent_nonneg h] at hr
  · next h =>
    refine ⟨d, ?_, rfl⟩
    dsimp only
    split
    · next hp =>
      -- the point stands between the digits
      have htake : d.digitList.take (d.digitList.length - (-d.exponent).toNat) ≠ [] := by
        rw [ne_eq, List.take_eq_nil_iff, not_or]
        exact ⟨by omega, d.digitList_ne_nil⟩
      have hr := readScientific?_point (s := [])
        (f := d.digitList.drop (d.digitList.length - (-d.exponent).toNat)) htake
        (fun c hc => isDigit_of_mem_digitList (List.mem_of_mem_take hc))
        (fun c hc => isDigit_of_mem_digitList (List.mem_of_mem_drop hc)) .none
      rw [List.append_nil] at hr
      rw [hr, List.take_append_drop, digitsValue_digitList, List.length_drop]
      congr 2
      omega
    · next hp =>
      -- the point stands in front of the digits and of some zeros
      have hr := readScientific?_point (w := ['0']) (s := [])
        (f := List.replicate ((-d.exponent).toNat - d.digitList.length) '0' ++ d.digitList)
        (by simp) (by simp [isDigit]) (fun c hc => (List.mem_append.1 hc).elim
          isDigit_of_mem_zeros isDigit_of_mem_digitList) .none
      rw [List.append_nil] at hr
      have hz := digitsValue_zeros_append ((-d.exponent).toNat - d.digitList.length + 1) d.digitList
      rw [List.replicate_succ, List.cons_append] at hz
      refine hr.trans ?_
      rw [List.cons_append, List.nil_append, hz, digitsValue_digitList, List.length_append,
        List.length_replicate]
      congr 2
      omega

/-- A decimal with an exponent is read as it is. -/
theorem readScientific?_scientific (d : Decimal) :
    readScientific? d.scientific = some (d.digits, d.exponent) := by
  have hexp : ReadsExponent ('e' :: (if d.leading < 0 then '-' else '+') ::
      Nat.toDigits 10 d.leading.natAbs) d.leading := by
    have hn := readDigits?_toDigits d.leading.natAbs
    split
    · next h =>
      have := ReadsExponent.minus hn
      rwa [show -(d.leading.natAbs : ℤ) = d.leading by omega] at this
    · next h =>
      have := ReadsExponent.plus hn
      rwa [show (d.leading.natAbs : ℤ) = d.leading by omega] at this
  have hdigits : ∀ c ∈ d.digitList, isDigit c = true := fun c hc => isDigit_of_mem_digitList hc
  have hvalue := d.digitsValue_digitList
  have hlead : d.leading = d.digitList.length - 1 + d.exponent := rfl
  rw [scientific]
  match hd : d.digitList with
  | [] => exact absurd hd d.digitList_ne_nil
  | [c] =>
    rw [hd] at hdigits hvalue hlead
    rw [readScientific?_whole (List.cons_ne_nil c []) hdigits hexp, hvalue, hlead]
    simp
  | c :: b :: r =>
    rw [hd] at hdigits hvalue hlead
    have hr := readScientific?_point (w := [c]) (f := b :: r) (List.cons_ne_nil c [])
      (fun x hx => hdigits x (by simp_all)) (fun x hx => hdigits x (List.mem_cons_of_mem c hx)) hexp
    rw [List.cons_append, List.nil_append] at hr
    refine hr.trans ?_
    rw [List.cons_append, List.nil_append, hvalue, hlead]
    simp

/-- **A written decimal is read with its value.** -/
theorem readScientific?_write {f : Notation} (hf : f.wholeEnd = "" ∨ f.wholeEnd = ".0")
    (d : Decimal) : ∃ r : Decimal, readScientific? (d.write f) = some (r.digits, r.exponent) ∧
      r.value = d.value := by
  rw [write]
  split
  · refine readScientific?_plain ?_ d
    rcases hf with h | h <;> rw [h]
    · exact .inl rfl
    · exact .inr rfl
  · exact ⟨d, readScientific?_scientific d, rfl⟩

end Decimal

namespace Number

/-- The text is a decimal among the reals that round to the number, after the sign of the number. -/
def Spells (s : List Char) (x : Float) : Prop :=
  ∃ (body : List Char) (d : Decimal), s = (if isNegative x then '-' :: body else body) ∧
    readScientific? body = some (d.digits, d.exponent) ∧ (Dyadic.ofFloat x).Covers d.value

/-- **A text spells one number at most.** -/
theorem Spells.eq {s : List Char} {x y : Float} (hx : Spells s x) (hy : Spells s y) : x = y := by
  obtain ⟨a, d, hsa, had, hxd⟩ := hx
  obtain ⟨b, e, hsb, hbe, hye⟩ := hy
  -- no decimal begins with a sign
  have hsign (r : List Char) : readScientific? ('-' :: r) = none := rfl
  have hs : isNegative x = isNegative y ∧ a = b := by
    rw [hsa] at hsb
    cases hxs : isNegative x <;> cases hys : isNegative y <;> simp only [hxs, hys, if_true, if_false,
      Bool.false_eq_true, List.cons.injEq, true_and] at hsb
    · exact ⟨rfl, hsb⟩
    · rw [hsb, hsign] at had
      cases had
    · rw [← hsb, hsign] at hbe
      cases hbe
    · exact ⟨rfl, hsb⟩
  rw [hs.2, hbe, Option.some.injEq, Prod.mk.injEq] at had
  have hde : d.value = e.value := by rw [Decimal.value, Decimal.value, had.1, had.2]
  exact Dyadic.eq_of_ofFloat_eq hs.1 (Dyadic.eq_of_covers (Dyadic.isReduced_ofFloat x)
    (Dyadic.isReduced_ofFloat y) hxd (hde ▸ hye))

end Number

namespace Notation

theorem unpacked_of_isFinite {u : Float.Model.UnpackedFloat} (h : u.isFinite = true) :
    u.isNaN = false ∧ u.isInf = false := by
  cases u with
  | notANumber => exact absurd h Bool.false_ne_true
  | infinity s => exact absurd h Bool.false_ne_true
  | zero s => exact ⟨rfl, rfl⟩
  | finite s m e hm => exact ⟨rfl, rfl⟩

/-- A finite number is written as its sign and a decimal. -/
theorem toList_write (f : Notation) {x : Float} (hn : x.isNaN = false ∧ x.isInf = false) :
    (f.write x).toList =
      if Number.isNegative x then '-' :: ((Dyadic.ofFloat x).shortest f.tie).write f
      else ((Dyadic.ofFloat x).shortest f.tie).write f := by
  simp only [write, hn.1, hn.2, Bool.false_eq_true, if_false, String.toList_ofList]

/-- **What is written for a finite number spells it.** -/
theorem spells_write {f : Notation} (hf : f.wholeEnd = "" ∨ f.wholeEnd = ".0") {x : Float}
    (hx : x.isFinite = true) : Number.Spells (f.write x).toList x := by
  obtain ⟨d, hd, hdv⟩ := Decimal.readScientific?_write hf ((Dyadic.ofFloat x).shortest f.tie)
  exact ⟨_, d, f.toList_write (unpacked_of_isFinite hx), hd, hdv ▸ Dyadic.covers_shortest f.tie _⟩

/-- Finite numbers that are written alike are equal. -/
theorem write_injective {f : Notation} (hf : f.wholeEnd = "" ∨ f.wholeEnd = ".0") {x y : Float}
    (hx : x.isFinite = true) (hy : y.isFinite = true) (h : f.write x = f.write y) : x = y :=
  (spells_write hf hx).eq (h ▸ spells_write hf hy)

end Notation
end Choropleth
