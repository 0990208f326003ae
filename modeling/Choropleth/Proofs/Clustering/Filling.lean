import Choropleth.Proofs.Clustering.InBounds

/-!
# Filling the grid

The rows of the grid are filled by halving, each from the one above it. What is known of a place
when it is set is known of all of them in the end: it is enough that the search for a beginning
hands it on from the places that bound it.

* `Grid.Invariant`: what is known of the places of the grid, and how the search hands it on;
* `Grid.fillSpan?_eq`: a span is filled from its middle column;
* `Grid.Invariant.exists_middle`: the middle column is set;
* `Grid.Invariant.exists_fillSpan?`: halving fills a row;
* `Grid.Invariant.exists_rows?`: the grid is filled;
* `Grid.invariant_startsWithin`: no run begins before its row allows or behind its end.
-/

namespace Choropleth

variable {α : Type} [Scalar α] {n : ℕ}

open GridRow

namespace Grid

/-- What is known of costs and beginnings: `p c i cost start` for the place `i` of row `c`. It holds
for the first row, and the search for a beginning hands it on from the row above and from the places
that bound it, one before and one behind the place. In the last row of the grid the place before may
not have been filled; its beginning is zero then. -/
structure Invariant (sums : Sums α) (n : ℕ) (p : ℕ → ℕ → α → ℕ → Prop) : Prop where
  first : ∀ i < n, ∃ cost, sums.spread? 0 i = some cost ∧ p 0 i cost 0
  scan : ∀ {c : ℕ} {above : GridRow α}, (∀ i, c ≤ i → i < n → above.HoldsAt (p c i) i) →
    ∀ {i fromLeft fromRight fromAbove : ℕ} {cost : α}, c < i → i < n →
      above.costs[i - 1]? = some cost → above.starts[i]? = some fromAbove →
      (fromLeft ≤ c + 1 ∨ ∃ j < i, ∃ x, p (c + 1) j x fromLeft) →
      (fromRight = i - 1 ∨ ∃ j > i, ∃ x, p (c + 1) j x fromRight) →
      ∃ found, scan? sums above i (max (max (c + 1) fromLeft) fromAbove) (min (i - 1) fromRight)
        (cost, i) = some found ∧ p (c + 1) i found.1 found.2

/-- Filling a span: the search sets the middle column, and both sides are filled after it. -/
theorem fillSpan?_eq {sums : Sums α} {above row : GridRow α} {c first last i : ℕ}
    (hle : ¬last < first) (hi : i = first + (last - first) / 2) (hpos : 0 < i) {cost : α}
    {fromLeft fromAbove fromRight : ℕ} (hcost : above.costs[i - 1]? = some cost)
    (hleft : (if c < first then row.starts[first - 1]? else some c) = some fromLeft)
    (habove : above.starts[i]? = some fromAbove)
    (hright : (if last < above.costs.size - 1 then row.starts[last + 1]? else some (i - 1)) =
      some fromRight) :
    fillSpan? sums above c first last row =
      (scan? sums above i (max (max c fromLeft) fromAbove) (min (i - 1) fromRight) (cost, i)).bind
        fun found => (row.set? i found.1 found.2).bind fun row =>
          (if first < i then fillSpan? sums above c first (i - 1) row else some row).bind
            fun row => fillSpan? sums above c (i + 1) last row := by
  have hedge : minus? above.costs.size 1 = some (above.costs.size - 1) := by
    have hlt := (Array.getElem?_eq_some_iff.1 hcost).1
    rw [minus?, if_pos (by omega)]
  -- the columns before the middle one are filled if there are any
  have hsides (row : GridRow α) :
      (if first < i then (fillSpan? sums above c first (i - 1) row).bind fun row =>
          fillSpan? sums above c (i + 1) last row
        else fillSpan? sums above c (i + 1) last row) =
      (if first < i then fillSpan? sums above c first (i - 1) row else some row).bind
        fun row => fillSpan? sums above c (i + 1) last row := by
    split <;> rfl
  rw [fillSpan?]
  simp only [if_neg hle, ← hi, if_neg (Nat.ne_of_gt hpos), hcost, habove, hedge, hsides,
    Option.bind_eq_bind, Option.bind_some]
  by_cases hcf : c < first <;> by_cases hln : last < above.costs.size - 1 <;>
    simp only [hcf, hln, if_true, if_false] at hleft hright ⊢
  · rw [hleft, Option.bind_some, hright, Option.bind_some]
  · cases hright
    rw [hleft, Option.bind_some]
  · cases hleft
    rw [hright, Option.bind_some]
  · cases hleft
    cases hright
    rfl

namespace Invariant

variable {sums : Sums α} {p : ℕ → ℕ → α → ℕ → Prop} {c : ℕ} {above : GridRow α}

/-- The middle column of a span is set, and the columns on both sides are left to be filled. -/
theorem exists_middle (hp : Invariant sums n p) (hf : above.Fits n)
    (ha : ∀ i, c ≤ i → i < n → above.HoldsAt (p c i) i) {row : GridRow α} (hr : row.Fits n)
    {first last i : ℕ} (hc : c < first) (hlast : last < n) (hle : first ≤ last)
    (hi : i = first + (last - first) / 2)
    (hleft : c + 1 < first →
      row.starts[first - 1]? = some 0 ∨ row.HoldsAt (p (c + 1) (first - 1)) (first - 1))
    (hright : last < n - 1 → row.HoldsAt (p (c + 1) (last + 1)) (last + 1)) :
    ∃ row', fillSpan? sums above (c + 1) first last row =
        ((if first < i then fillSpan? sums above (c + 1) first (i - 1) row' else some row').bind
          fun row => fillSpan? sums above (c + 1) (i + 1) last row) ∧
      row'.Fits n ∧ row'.HoldsAt (p (c + 1) i) i ∧ ∀ j ≠ i, AgreesAt j row row' := by
  have hfi : first ≤ i := hi ▸ Nat.le_add_right _ _
  have hil : i ≤ last := by omega
  -- the search may be bounded from either side
  obtain ⟨cost, -, hcost, -, -⟩ := ha (i - 1) (by omega) (by omega)
  obtain ⟨-, fromAbove, -, habove, -⟩ := ha i (by omega) (by omega)
  obtain ⟨fromLeft, hfromLeft, hlow⟩ : ∃ start,
      (if c + 1 < first then row.starts[first - 1]? else some (c + 1)) = some start ∧
        (start ≤ c + 1 ∨ ∃ j < i, ∃ x, p (c + 1) j x start) := by
    split
    · next h =>
      rcases hleft h with hzero | ⟨x, start, -, hstart, hx⟩
      · exact ⟨0, hzero, .inl (Nat.zero_le _)⟩
      · exact ⟨start, hstart, .inr ⟨first - 1, by omega, x, hx⟩⟩
    · exact ⟨c + 1, rfl, .inl (Nat.le_refl _)⟩
  obtain ⟨fromRight, hfromRight, hhigh⟩ : ∃ start,
      (if last < n - 1 then row.starts[last + 1]? else some (i - 1)) = some start ∧
        (start = i - 1 ∨ ∃ j > i, ∃ x, p (c + 1) j x start) := by
    split
    · next h =>
      obtain ⟨x, start, -, hstart, hx⟩ := hright h
      exact ⟨start, hstart, .inr ⟨last + 1, by omega, x, hx⟩⟩
    · exact ⟨i - 1, rfl, .inl rfl⟩
  obtain ⟨found, hscan, hfound⟩ :=
    hp.scan ha (show c < i by omega) (show i < n by omega) hcost habove hlow hhigh
  obtain ⟨row', hset, hr', hmid, hsame⟩ :=
    hr.exists_set? (p := p (c + 1) i) (show i < n by omega) hfound
  refine ⟨row', ?_, hr', hmid, hsame⟩
  rw [fillSpan?_eq (Nat.not_lt.2 hle) hi (by omega) hcost hfromLeft habove
    (hf.costs ▸ hfromRight), hscan, Option.bind_some, hset, Option.bind_some]

/-- **Halving fills a row.** The columns outside the span are left as they are. -/
theorem exists_fillSpan? (hp : Invariant sums n p) (hf : above.Fits n)
    (ha : ∀ i, c ≤ i → i < n → above.HoldsAt (p c i) i) {row : GridRow α} (hr : row.Fits n)
    {first last : ℕ} (hc : c < first) (hlast : last < n)
    (hleft : c + 1 < first →
      row.starts[first - 1]? = some 0 ∨ row.HoldsAt (p (c + 1) (first - 1)) (first - 1))
    (hright : last < n - 1 → row.HoldsAt (p (c + 1) (last + 1)) (last + 1)) :
    ∃ row', fillSpan? sums above (c + 1) first last row = some row' ∧ row'.Fits n ∧
      (∀ i, first ≤ i → i ≤ last → row'.HoldsAt (p (c + 1) i) i) ∧
      ∀ i, i < first ∨ last < i → AgreesAt i row row' := by
  by_cases hlt : last < first
  · exact ⟨row, by rw [fillSpan?, if_pos hlt], hr, fun i hfi hil => absurd hlt (by omega),
      fun i _ => .refl i row⟩
  obtain ⟨i, hi⟩ : ∃ i, i = first + (last - first) / 2 := ⟨_, rfl⟩
  have hfi : first ≤ i := hi ▸ Nat.le_add_right _ _
  have hil : i ≤ last := by omega
  obtain ⟨row₁, hspan, hr₁, hmid, hsame₁⟩ :=
    hp.exists_middle hf ha hr hc hlast (Nat.not_lt.1 hlt) hi hleft hright
  -- the columns before the middle one are filled first
  obtain ⟨row₂, hbefore, hr₂, hfilled₂, hsame₂⟩ : ∃ row₂,
      (if first < i then fillSpan? sums above (c + 1) first (i - 1) row₁ else some row₁) =
        some row₂ ∧ row₂.Fits n ∧
      (∀ j, first ≤ j → j ≤ i → row₂.HoldsAt (p (c + 1) j) j) ∧
      ∀ j, j < first ∨ i < j → AgreesAt j row row₂ := by
    split
    · next hfirst =>
      have hmid' : row₁.HoldsAt (p (c + 1) (i - 1 + 1)) (i - 1 + 1) := by
        rwa [Nat.sub_add_cancel (by omega)]
      obtain ⟨row₂, hspan, hr₂, hfilled, hsame⟩ := hp.exists_fillSpan? hf ha hr₁ hc
        (show i - 1 < n by omega) (fun h => by
          have hsame := hsame₁ (first - 1) (by omega)
          exact (hleft h).imp hsame.2.trans fun h => h.of_agreesAt hsame) fun _ => hmid'
      refine ⟨row₂, hspan, hr₂, fun j hj hji => ?_, fun j hj =>
        (hsame₁ j (by omega)).trans (hsame j (by omega))⟩
      rcases Nat.eq_or_lt_of_le hji with rfl | hji
      · exact hmid.of_agreesAt (hsame j (.inr (by omega)))
      · exact hfilled j hj (by omega)
    · next hfirst =>
      obtain rfl : first = i := by omega
      refine ⟨row₁, rfl, hr₁, fun j hj hji => ?_, fun j hj => hsame₁ j (by omega)⟩
      exact (Nat.le_antisymm hj hji) ▸ hmid
  -- and then those behind it
  obtain ⟨row₃, hbehind, hr₃, hfilled₃, hsame₃⟩ := hp.exists_fillSpan? hf ha hr₂
    (show c < i + 1 by omega) hlast (fun _ => .inr (hfilled₂ i hfi (Nat.le_refl i)))
    fun h => (hright h).of_agreesAt (hsame₂ _ (.inr (by omega)))
  refine ⟨row₃, by rw [hspan, hbefore, Option.bind_some, hbehind], hr₃, fun j hj hjl => ?_,
    fun j hj => (hsame₂ j (by omega)).trans (hsame₃ j (by omega))⟩
  rcases Nat.lt_or_ge i j with hij | hji
  · exact hfilled₃ j hij hjl
  · exact (hfilled₂ j hj hji).of_agreesAt (hsame₃ j (.inl (by omega)))
termination_by last + 1 - first

/-! ### The rows of the grid -/

theorem exists_firstRow? (hp : Invariant sums n p) :
    ∃ row, firstRow? sums n = some row ∧ row.Fits n ∧ ∀ i < n, row.HoldsAt (p 0 i) i := by
  have hcosts : ∀ m ≤ n, ∃ xs, (List.range m).mapM (fun i => sums.spread? 0 i) = some xs ∧
      xs.length = m ∧ ∀ i < m, ∃ x, xs[i]? = some x ∧ p 0 i x 0 := by
    intro m hm
    induction m with
    | zero => exact ⟨[], rfl, rfl, nofun⟩
    | succ m ih =>
      obtain ⟨xs, hxs, hlength, hall⟩ := ih (by omega)
      obtain ⟨x, hx, hpx⟩ := hp.first m (by omega)
      refine ⟨xs ++ [x], by simp [List.range_succ, hxs, hx], by simp [hlength], fun i hi => ?_⟩
      rcases Nat.lt_succ_iff_lt_or_eq.1 hi with hi | rfl
      · obtain ⟨y, hy, hpy⟩ := hall i hi
        exact ⟨y, by rw [List.getElem?_append_left (by omega), hy], hpy⟩
      · exact ⟨x, by rw [List.getElem?_append_right (by omega), hlength]; simp, hpx⟩
  obtain ⟨xs, hxs, hlength, hall⟩ := hcosts n (Nat.le_refl n)
  refine ⟨⟨xs.toArray, Array.replicate n 0⟩, by simp [firstRow?, hxs],
    ⟨by simp [hlength], by simp⟩, fun i hi => ?_⟩
  obtain ⟨x, hx, hpx⟩ := hall i hi
  exact ⟨x, 0, by simpa using hx, by simp [hi], hpx⟩

/-- The rows after a filled one are filled, the last of `k` rows in its last column only. -/
theorem exists_laterRows? (hp : Invariant sums n p) {k : ℕ} (hk : k ≤ n) (hf : above.Fits n)
    (ha : ∀ i, c ≤ i → i < n → above.HoldsAt (p c i) i) {remaining : ℕ}
    (hc : c + 1 + remaining = k) :
    ∃ rows, laterRows? sums n k above (c + 1) remaining = some rows ∧ rows.length = remaining ∧
      ∀ r row, rows[r]? = some row → ∀ i, c + 1 + r ≤ i → i < n → c + 1 + r + 1 < k ∨ i = n - 1 →
        row.HoldsAt (p (c + 1 + r) i) i := by
  induction remaining generalizing above c with
  | zero => exact ⟨[], rfl, rfl, by simp⟩
  | succ remaining ih =>
    have hblank : (blank n : GridRow α).starts[n - 1 - 1]? = some 0 := by
      simp [blank, show n - 1 - 1 < n by omega]
    have hfirst : c < (if c + 1 + 1 < k then c + 1 else n - 1) := by
      split <;> omega
    obtain ⟨row, hrow, hr, hfilled, -⟩ := hp.exists_fillSpan? hf ha fits_blank hfirst
      (show n - 1 < n by omega) (fun h => by
        split at h
        · exact absurd h (Nat.lt_irrefl _)
        · next hk => exact .inl (by rwa [if_neg hk])) fun h => absurd h (Nat.lt_irrefl _)
    have hplace : ∀ i, c + 1 ≤ i → i < n → c + 1 + 1 < k ∨ i = n - 1 →
        row.HoldsAt (p (c + 1) i) i := fun i hci hin hi =>
      hfilled i (by split <;> omega) (by omega)
    -- the row is filled in all its columns, unless it is the last one
    obtain ⟨rows, hrows, hlength, hall⟩ : ∃ rows, laterRows? sums n k row (c + 2) remaining =
        some rows ∧ rows.length = remaining ∧ ∀ r row', rows[r]? = some row' → ∀ i,
          c + 2 + r ≤ i → i < n → c + 2 + r + 1 < k ∨ i = n - 1 →
            row'.HoldsAt (p (c + 2 + r) i) i := by
      cases remaining with
      | zero => exact ⟨[], rfl, rfl, by simp⟩
      | succ remaining =>
        exact ih hr (fun i hci hin => hplace i hci hin (.inl (by omega))) (by omega)
    refine ⟨row :: rows, ?_, congrArg (· + 1) hlength, fun r row' hr' => ?_⟩
    · simp only [laterRows?, minus?, if_pos (show 1 ≤ n by omega), Option.bind_eq_bind,
        Option.bind_some, hrow, hrows]
      rfl
    · cases r with
      | zero =>
        obtain rfl := Option.some.inj hr'
        exact hplace
      | succ r =>
        rw [show c + 1 + (r + 1) = c + 2 + r by omega]
        exact hall r row' hr'

/-- **The grid is filled**: every row in all columns that have a value for each of its runs, the
last one in its last column. -/
theorem exists_rows? {sorted : List α} (hsums : Sums.ofSorted? sorted = some sums)
    (hp : Invariant sums sorted.length p) {k : ℕ} (hk : 0 < k) (hle : k ≤ sorted.length) :
    ∃ rows, rows? sorted k = some rows ∧ rows.length = k ∧
      ∀ c row, rows[c]? = some row → ∀ i, c ≤ i → i < sorted.length →
        c + 1 < k ∨ i = sorted.length - 1 → row.HoldsAt (p c i) i := by
  obtain ⟨first, hfirst, hf, hfilled⟩ := hp.exists_firstRow?
  obtain ⟨later, hlater, hlength, hall⟩ := hp.exists_laterRows? hle hf
    (fun i _ hi => hfilled i hi) (show 0 + 1 + (k - 1) = k by omega)
  refine ⟨first :: later, ?_, by rw [List.length_cons, hlength]; omega, fun c row hc => ?_⟩
  · simp only [rows?, hsums, hfirst, hlater, Option.bind_eq_bind, Option.bind_some]
    rfl
  · cases c with
    | zero =>
      obtain rfl := Option.some.inj hc
      exact fun i _ hi _ => hfilled i hi
    | succ c =>
      rw [show c + 1 = 0 + 1 + c by omega]
      exact hall c row hc

end Invariant

/-! ### Bounds of beginnings -/

/-- The first run begins with the first value. Others leave a value to each of the runs before them
and do not begin behind their end. -/
def StartsWithin {α : Type} (c i : ℕ) (_cost : α) (start : ℕ) : Prop :=
  (c = 0 → start = 0) ∧ c ≤ start ∧ start ≤ i

/-- **Whatever comes out of the arithmetic, runs begin where there is room for them.** -/
theorem invariant_startsWithin {sums : Sums α} (hs : sums.Fits n) :
    Invariant sums n (StartsWithin (α := α)) where
  first i hi := by
    obtain ⟨x, hx⟩ := hs.exists_spread? hi (Nat.zero_le i)
    exact ⟨x, hx, fun _ => rfl, Nat.le_refl 0, Nat.zero_le i⟩
  scan {c above} ha {i fromLeft fromRight fromAbove cost} hci hi hcost habove hleft hright := by
    obtain ⟨-, start, -, hstart, -, hcs, hsi⟩ := ha i (by omega) hi
    obtain rfl : start = fromAbove := Option.some.inj (hstart.symm.trans habove)
    obtain ⟨found, hscan, hfound⟩ := exists_scan? hs (fun j hcj hjn => by
        obtain ⟨cost, -, hcost, -⟩ := ha j hcj hjn
        exact ⟨cost, hcost⟩) hi (show c < max (max (c + 1) fromLeft) start by omega)
      (show min (i - 1) fromRight ≤ i by omega) (cost, i)
    refine ⟨found, hscan, nofun, ?_⟩
    rcases hfound with hfound | hfound
    · rw [hfound]
      exact ⟨hci, Nat.le_refl i⟩
    · omega

end Grid
end Choropleth
