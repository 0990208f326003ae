import Mathlib.Data.List.DropRight
import Choropleth.Category
import Choropleth.Proofs.Number.ReadBack

/-!
# Totals columns

Letters and digits do not mix, so a category code is cut into its runs in one way only, and its
column is all the digits at its end. The number of the column decides about its totals column: there
is none for a number out of range and for a totals column itself, and otherwise it is the column 1
of the same table, written with as many digits. But no number is written with more than `maxWidth`
digits.

* `Category.IsTable`, `Category.split?_eq_some`: the form of codes;
* `Category.totals_of_split?`: the number of the column decides;
* `Category.IsTotalsOf`: what is promised of a totals column;
* `totals_are_consistent`: what is found for every text;
* `totals_of_wide_code`: a code with too many digits.
-/

namespace Choropleth
namespace Category

open Number

variable {s table column : List Char} {code t p d : String}

/-! ### The form of codes -/

/-- One character or more, all of them of one kind. -/
def IsRun (p : Char → Bool) (s : List Char) : Prop := s ≠ [] ∧ ∀ c ∈ s, p c = true

/-- Where a run begins, no other kind of character stands. -/
theorem IsRun.head {p q : Char → Bool} (h : IsRun p s) (hpq : ∀ c, p c = true → q c = false)
    (r : List Char) : ∀ c ∈ (s ++ r).head?, q c = false := by
  obtain ⟨c, s, rfl⟩ := List.exists_cons_of_ne_nil h.1
  rintro _ ⟨⟩
  exact hpq c (h.2 c List.mem_cons_self)

/-- A run is cut off as far as it goes. -/
theorem run?_eq_some {p : Char → Bool} {a r : List Char} :
    run? p s = some (a, r) ↔ s = a ++ r ∧ IsRun p a ∧ ∀ c ∈ r.head?, p c = false := by
  constructor
  · intro h
    rw [run?] at h
    split at h
    case isTrue => cases h
    case isFalse hne =>
      cases h
      refine ⟨List.takeWhile_append_dropWhile.symm, ⟨by simpa using hne, fun c hc =>
        List.mem_takeWhile_imp hc⟩, fun c hc => ?_⟩
      have := List.head?_dropWhile_not p s
      rwa [Option.mem_def.1 hc] at this
  · rintro ⟨rfl, ⟨hne, ha⟩, hr⟩
    obtain ⟨htake, hdrop⟩ := span_append ha hr
    rw [run?, htake, hdrop, if_neg (by simpa using hne)]

theorem isDigit_eq_false_of_isLetter (c : Char) (h : isLetter c = true) : isDigit c = false := by
  simp only [isLetter, isDigit, Bool.and_eq_true, decide_eq_true_eq, Bool.and_eq_false_iff,
    decide_eq_false_iff_not, Char.le_def, UInt32.le_iff_toNat_le] at h ⊢
  have hA : 'A'.val.toNat = 65 := rfl
  have h9 : '9'.val.toNat = 57 := rfl
  omega

theorem isLetter_eq_false_of_isDigit (c : Char) (h : isDigit c = true) : isLetter c = false := by
  by_contra hc
  rw [isDigit_eq_false_of_isLetter c (by simpa using hc)] at h
  cases h

/-- The table of a code: letters, digits and letters. -/
def IsTable (table : List Char) : Prop :=
  ∃ a b c, table = a ++ b ++ c ∧ IsRun isLetter a ∧ IsRun isDigit b ∧ IsRun isLetter c

theorem splitChars?_eq_some :
    splitChars? s = some (table, column) ↔
      table ++ column = s ∧ IsTable table ∧ IsRun isDigit column := by
  simp only [splitChars?, Option.bind_eq_bind, Option.bind_eq_some_iff, Prod.exists, run?_eq_some]
  constructor
  · rintro ⟨a, s₁, ⟨rfl, ha, -⟩, b, s₂, ⟨rfl, hb, -⟩, c, s₃, ⟨rfl, hc, -⟩, d, s₄, ⟨rfl, hd, -⟩, h⟩
    split at h
    case isFalse => cases h
    case isTrue hend =>
      cases h
      obtain rfl : s₄ = [] := by simpa using hend
      exact ⟨by simp, ⟨a, b, c, rfl, ha, hb, hc⟩, hd⟩
  · rintro ⟨rfl, ⟨a, b, c, rfl, ha, hb, hc⟩, hd⟩
    refine ⟨a, b ++ (c ++ column), ⟨by simp, ha, hb.head isLetter_eq_false_of_isDigit _⟩,
      b, c ++ column, ⟨rfl, hb, hc.head isDigit_eq_false_of_isLetter _⟩,
      c, column, ⟨rfl, hc, fun c' hc' => ?_⟩, column, [], ⟨by simp, hd, by simp⟩, by simp⟩
    exact hd.head isLetter_eq_false_of_isDigit [] c' (by simpa using hc')

theorem split?_eq_some :
    split? code = some (p, d) ↔ p ++ d = code ∧ IsTable p.toList ∧ IsRun isDigit d.toList := by
  have hcode : p ++ d = code ↔ p.toList ++ d.toList = code.toList := by
    rw [← String.toList_append, String.toList_inj]
  rw [hcode, ← splitChars?_eq_some, split?, Option.map_eq_some_iff]
  constructor
  · rintro ⟨⟨table, column⟩, h, hp⟩
    cases hp
    simpa using h
  · exact fun h => ⟨_, h, by simp⟩

/-- The column is all the digits at the end of the code. -/
theorem column_eq_rtakeWhile (h : split? code = some (p, d)) :
    d.toList = code.toList.rtakeWhile isDigit := by
  obtain ⟨rfl, ⟨a, b, c, hp, -, -, hc⟩, hd⟩ := split?_eq_some.1 h
  -- read backwards, the column is a run of digits before a letter
  have hreverse : (p ++ d).toList.reverse = d.toList.reverse ++ (c.reverse ++ (a ++ b).reverse) := by
    simp [hp]
  have hback : IsRun isLetter c.reverse := ⟨by simpa using hc.1, by simpa using hc.2⟩
  rw [List.rtakeWhile, hreverse, (span_append (by simpa using hd.2)
    (hback.head isDigit_eq_false_of_isLetter _)).1, List.reverse_reverse]

/-- A category code consists of letters and digits. -/
theorem of_mem_of_splitChars? (h : splitChars? s = some (table, column)) {c : Char} (hc : c ∈ s) :
    isLetter c = true ∨ isDigit c = true := by
  obtain ⟨rfl, ⟨a, b, l, rfl, ha, hb, hl⟩, hd⟩ := splitChars?_eq_some.1 h
  simp only [List.mem_append] at hc
  rcases hc with ((hc | hc) | hc) | hc
  · exact .inl (ha.2 c hc)
  · exact .inr (hb.2 c hc)
  · exact .inl (hl.2 c hc)
  · exact .inr (hd.2 c hc)

/-! ### The number of the column -/

theorem columnNumber?_of_isRun (h : IsRun isDigit column) :
    columnNumber? column = (some (digitsValue column)).filter (· ≤ maxCount) := by
  have hplus : ∀ r, column = '+' :: r → False := by
    rintro r rfl
    exact absurd (h.2 '+' List.mem_cons_self) (by decide)
  rw [columnNumber?, readNat?.eq_2 _ _ hplus, readDigits?_of_digits h.1 h.2]

/-- Zeros before a digit are digits. -/
theorem isRun_zeros_append (n : ℕ) {c : Char} (hc : isDigit c = true) :
    IsRun isDigit (List.replicate n '0' ++ [c]) := by
  refine ⟨by simp, fun b hb => ?_⟩
  rcases List.mem_append.1 hb with hb | hb
  · rw [List.eq_of_mem_replicate hb]
    rfl
  · rwa [List.mem_singleton.1 hb]

theorem digitsValue_firstColumn (n : ℕ) : digitsValue (firstColumn n) = 1 :=
  digitsValue_zeros_append (n - 1) ['1']

theorem length_firstColumn {n : ℕ} (h : n ≠ 0) : (firstColumn n).length = n := by
  simp only [firstColumn, List.length_append, List.length_replicate, List.length_singleton]
  omega

theorem splitChars?_toList (h : split? code = some (p, d)) :
    splitChars? code.toList = some (p.toList, d.toList) := by
  obtain ⟨rfl, hp, hd⟩ := split?_eq_some.1 h
  exact splitChars?_eq_some.2 ⟨by simp, hp, hd⟩

theorem isTotals_of_split? (h : split? code = some (p, d)) :
    isTotals code = true ↔ digitsValue d.toList = 1 := by
  have hd := (split?_eq_some.1 h).2.2
  have hone : 1 ≤ maxCount := by decide
  rw [isTotals, splitChars?_toList h]
  simp only [columnNumber?_of_isRun hd, Option.filter_eq_some_iff, Option.some.injEq,
    decide_eq_true_eq, hone, and_true]

theorem isTotals_of_split?_eq_none (h : split? code = none) : isTotals code = false := by
  rw [split?, Option.map_eq_none_iff] at h
  rw [isTotals, h]

/-- The number of the column decides. -/
theorem totals_of_split? (h : split? code = some (p, d)) :
    totals code =
      if maxCount < digitsValue d.toList then .error (.malformed code)
      else if digitsValue d.toList = 1 then .error (.alreadyTotals code)
      else if maxWidth < d.length then .error (.tooWide code)
      else .ok (p ++ String.ofList (firstColumn d.length)) := by
  have hd := (split?_eq_some.1 h).2.2
  rw [totals, splitChars?_toList h]
  simp only [columnNumber?_of_isRun hd, Option.filter_some, decide_eq_true_eq]
  by_cases hbound : digitsValue d.toList ≤ maxCount
  · simp [hbound, Nat.not_lt.2 hbound, String.length_toList]
  · simp [hbound, Nat.not_le.1 hbound]

theorem totals_of_split?_eq_none (h : split? code = none) :
    totals code = .error (.malformed code) := by
  rw [split?, Option.map_eq_none_iff] at h
  rw [totals, h]

/-! ### The totals column -/

/-- What is promised of the totals column `t` of the table of a code. -/
structure IsTotalsOf (t code : String) : Prop where
  ne : t ≠ code
  length : t.length = code.length
  /-- The table is the same, and the column has as many digits. -/
  table : ∃ p d e, split? code = some (p, d) ∧ split? t = some (p, e) ∧ e.length = d.length
  isTotals : isTotals t = true
  totals : totals t = .error (.alreadyTotals t)

/-- The first column of the table is its totals column. -/
theorem isTotalsOf_firstColumn (h : split? code = some (p, d)) (hne : digitsValue d.toList ≠ 1) :
    IsTotalsOf (p ++ String.ofList (firstColumn d.length)) code := by
  obtain ⟨rfl, hp, hd⟩ := split?_eq_some.1 h
  have hlength : (String.ofList (firstColumn d.length)).length = d.length := by
    rw [String.length_ofList, length_firstColumn]
    simpa [← String.length_toList] using hd.1
  have hsplit : split? (p ++ String.ofList (firstColumn d.length)) =
      some (p, String.ofList (firstColumn d.length)) := by
    refine split?_eq_some.2 ⟨rfl, hp, ?_⟩
    rw [String.toList_ofList]
    exact isRun_zeros_append (d.length - 1) rfl
  have hone : digitsValue (String.ofList (firstColumn d.length)).toList = 1 := by
    rw [String.toList_ofList, digitsValue_firstColumn]
  refine ⟨fun he => hne ?_, ?_, ⟨p, d, _, h, hsplit, hlength⟩, (isTotals_of_split? hsplit).2 hone, ?_⟩
  · rwa [(String.append_right_inj p).1 he] at hone
  · rw [String.length_append, String.length_append, hlength]
  · rw [totals_of_split? hsplit, hone]
    rfl

/-! ### Outcomes -/

variable {c : String}

theorem isTotals_iff :
    isTotals code = true ↔ ∃ p d, split? code = some (p, d) ∧ digitsValue d.toList = 1 := by
  rcases h : split? code with _ | ⟨p, d⟩
  · simp [isTotals_of_split?_eq_none h]
  · simp [isTotals_of_split? h]

theorem totals_eq_malformed :
    totals code = .error (.malformed c) ↔ code = c ∧
      (split? code = none ∨
        ∃ p d, split? code = some (p, d) ∧ maxCount < digitsValue d.toList) := by
  rcases h : split? code with _ | ⟨p, d⟩
  · simp [totals_of_split?_eq_none h]
  · rw [totals_of_split? h]
    by_cases hbound : maxCount < digitsValue d.toList
    · simp [hbound]
    · split_ifs <;> simp [hbound]

theorem totals_eq_alreadyTotals :
    totals code = .error (.alreadyTotals c) ↔ code = c ∧ isTotals code = true := by
  rcases h : split? code with _ | ⟨p, d⟩
  · simp [totals_of_split?_eq_none h, isTotals_of_split?_eq_none h]
  · rw [totals_of_split? h, isTotals_of_split? h]
    by_cases hone : digitsValue d.toList = 1
    · simp [hone, maxCount]
    · split_ifs <;> simp [hone]

theorem totals_eq_tooWide :
    totals code = .error (.tooWide c) ↔ code = c ∧ isTotals code = false ∧
      ∃ p d, split? code = some (p, d) ∧ digitsValue d.toList ≤ maxCount ∧ maxWidth < d.length := by
  rcases h : split? code with _ | ⟨p, d⟩
  · simp [totals_of_split?_eq_none h]
  · rw [totals_of_split? h, ← Bool.not_eq_true, isTotals_of_split? h]
    split_ifs <;> simp_all

theorem exists_totals_iff :
    (∃ t, totals code = .ok t) ↔ isTotals code = false ∧
      ∃ p d, split? code = some (p, d) ∧ digitsValue d.toList ≤ maxCount ∧ d.length ≤ maxWidth := by
  rcases h : split? code with _ | ⟨p, d⟩
  · simp [totals_of_split?_eq_none h]
  · rw [totals_of_split? h, ← Bool.not_eq_true, isTotals_of_split? h]
    split_ifs <;> simp_all

/-- A totals column that is found is what it should be. -/
theorem isTotalsOf_of_totals (h : totals code = .ok t) : IsTotalsOf t code := by
  rcases hs : split? code with _ | ⟨p, d⟩
  · rw [totals_of_split?_eq_none hs] at h
    cases h
  · rw [totals_of_split? hs] at h
    split_ifs at h with hbound hone hwide
    cases h
    exact isTotalsOf_firstColumn hs hone

/-- Columns of one table with as many digits have the same totals column. -/
theorem totals_congr {code' t' d' : String} (h : split? code = some (p, d))
    (h' : split? code' = some (p, d')) (hd : d.length = d'.length) (ht : totals code = .ok t)
    (ht' : totals code' = .ok t') : t = t' := by
  rw [totals_of_split? h] at ht
  rw [totals_of_split? h', ← hd] at ht'
  split_ifs at ht ht'
  exact Except.ok.inj (ht.symm.trans ht')

end Category

open Category

/-- **Totals columns are consistent.** A text is a category code just if it is made of letters,
digits and letters, which are its table, and of digits, which are its column; these are all the
digits at its end. It is a totals column if its number is 1. No totals column is found for it just
if the text is no such code, if its number is out of range, if it is a totals column itself, or if
it has more digits than a number can be written with. A column that is found is another column of
the same table with as many digits, and a totals column itself; and it is the same for all columns
of the table with as many digits. -/
theorem totals_are_consistent (code : String) :
    ((∀ p d, split? code = some (p, d) ↔
        p ++ d = code ∧ IsTable p.toList ∧ IsRun Number.isDigit d.toList) ∧
      ∀ p d, split? code = some (p, d) → d.toList = code.toList.rtakeWhile Number.isDigit) ∧
    (isTotals code = true ↔
      ∃ p d, split? code = some (p, d) ∧ Number.digitsValue d.toList = 1) ∧
    ((∀ c, totals code = .error (.malformed c) ↔ code = c ∧ (split? code = none ∨
        ∃ p d, split? code = some (p, d) ∧ 2 ^ 64 - 1 < Number.digitsValue d.toList)) ∧
      (∀ c, totals code = .error (.alreadyTotals c) ↔ code = c ∧ isTotals code = true) ∧
      ∀ c, totals code = .error (.tooWide c) ↔ code = c ∧ isTotals code = false ∧
        ∃ p d, split? code = some (p, d) ∧ Number.digitsValue d.toList ≤ 2 ^ 64 - 1 ∧
          65535 < d.length) ∧
    ((∃ t, totals code = .ok t) ↔ isTotals code = false ∧
      ∃ p d, split? code = some (p, d) ∧ Number.digitsValue d.toList ≤ 2 ^ 64 - 1 ∧
        d.length ≤ 65535) ∧
    (∀ t, totals code = .ok t → IsTotalsOf t code) ∧
    ∀ code' p d d' t t', split? code = some (p, d) → split? code' = some (p, d') →
      d.length = d'.length → totals code = .ok t → totals code' = .ok t' → t = t' :=
  ⟨⟨fun _ _ => split?_eq_some, fun _ _ => column_eq_rtakeWhile⟩,
    isTotals_iff,
    ⟨fun _ => totals_eq_malformed, fun _ => totals_eq_alreadyTotals, fun _ => totals_eq_tooWide⟩,
    exists_totals_iff, fun _ => isTotalsOf_of_totals, fun _ _ _ _ _ _ => totals_congr⟩

example : totals "QS402EW0012" = .ok "QS402EW0001" := by decide +kernel

/-- A column with more digits than a number can be written with. -/
def Category.wideColumn : String := String.ofList (List.replicate maxWidth '0' ++ ['2'])

/-- The column 2 of a table is not its totals column, but if it is written with too many digits, no
totals column is found. -/
theorem totals_of_wide_code :
    split? ("A1A" ++ wideColumn) = some ("A1A", wideColumn) ∧
      Number.digitsValue wideColumn.toList = 2 ∧ isTotals ("A1A" ++ wideColumn) = false ∧
      ∀ t, totals ("A1A" ++ wideColumn) ≠ .ok t := by
  have hcolumn : wideColumn.toList = List.replicate maxWidth '0' ++ ['2'] := String.toList_ofList
  have hsplit : split? ("A1A" ++ wideColumn) = some ("A1A", wideColumn) := by
    refine split?_eq_some.2 ⟨rfl, ⟨['A'], ['1'], ['A'], rfl, ?_, ?_, ?_⟩, ?_⟩
    · exact ⟨List.cons_ne_nil _ _, List.forall_mem_singleton.2 rfl⟩
    · exact ⟨List.cons_ne_nil _ _, List.forall_mem_singleton.2 rfl⟩
    · exact ⟨List.cons_ne_nil _ _, List.forall_mem_singleton.2 rfl⟩
    · exact hcolumn ▸ isRun_zeros_append maxWidth rfl
  have htwo : Number.digitsValue wideColumn.toList = 2 := by
    rw [hcolumn, Number.digitsValue_zeros_append]
    rfl
  have hlength : wideColumn.length = maxWidth + 1 := by
    rw [← String.length_toList, hcolumn, List.length_append, List.length_replicate]
    rfl
  refine ⟨hsplit, htwo, ?_, fun t => ?_⟩
  · rw [← Bool.not_eq_true, isTotals_of_split? hsplit, htwo]
    decide
  · rw [totals_of_split? hsplit, htwo, hlength]
    simp [Number.maxCount]

end Choropleth
