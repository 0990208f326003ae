import Mathlib.Data.List.Basic
import Mathlib.Order.Basic
import Choropleth.Clustering.Classes
import Choropleth.Proofs.Clustering.Filling

/-!
# Cuts of sorted values

Classes are cut off the end of sorted values along the rows of the grid. Whatever comes out of the
arithmetic, they are as many as there should be, none of them is empty, and together they are the
sorted values.

* `IsCut`: a cut of values into runs;
* `exists_cutRuns?`: what holds of the runs along a row holds of those along the next one;
* `exists_sortedClasses?`: sorted values are cut;
* `exists_classes?`: all values have classes or an error;
* `isCut_of_classes?`: the classes of values are a cut of the sorted values;
* `of_classes?`, `exists_classes?_ok`: which values have classes.
-/

namespace Choropleth

variable {α : Type}

/-- A way to cut values into `k` runs, none of which is empty. -/
structure IsCut (sorted : List α) (k : ℕ) (runs : List (List α)) : Prop where
  length : runs.length = k
  nonempty : ∀ run ∈ runs, run ≠ []
  flatten : runs.flatten = sorted

variable {sorted : List α}

theorem isCut_singleton (h : sorted ≠ []) : IsCut sorted 1 [sorted] :=
  ⟨rfl, List.forall_mem_singleton.2 h, by simp⟩

/-- A run is put at the end of a cut of the values before it. -/
theorem IsCut.concat {j e k : ℕ} {runs : List (List α)} (h : IsCut (sorted.take j) k runs)
    (hje : j < e) (he : e ≤ sorted.length) :
    IsCut (sorted.take e) (k + 1) (runs ++ [(sorted.take e).drop j]) where
  length := by rw [List.length_append, h.length, List.length_singleton]
  nonempty := by
    refine List.forall_mem_append.2 ⟨h.nonempty, List.forall_mem_singleton.2 ?_⟩
    rw [← List.length_pos_iff, List.length_drop, List.length_take]
    omega
  flatten := by
    have htake : (sorted.take e).take j = sorted.take j := by
      rw [List.take_take, Nat.min_eq_left (Nat.le_of_lt hje)]
    rw [List.flatten_append, h.flatten, List.flatten_singleton, ← htake, List.take_append_drop]

theorem length_le_length_flatten {runs : List (List α)} (h : ∀ run ∈ runs, run ≠ []) :
    runs.length ≤ runs.flatten.length := by
  induction runs with
  | nil => exact Nat.le_refl _
  | cons run runs ih =>
    obtain ⟨hrun, hruns⟩ := List.forall_mem_cons.1 h
    have hpos := List.length_pos_iff.2 hrun
    have hrest := ih hruns
    rw [List.length_cons, List.flatten_cons, List.length_append]
    omega

/-- Taking the last run off a cut leaves a cut of the values before it. -/
theorem IsCut.exists_concat {e k : ℕ} (he : e ≤ sorted.length) {runs : List (List α)}
    (h : IsCut (sorted.take e) (k + 1) runs) : ∃ (j : ℕ) (before : List (List α)),
      runs = before ++ [(sorted.take e).drop j] ∧ k ≤ j ∧ j < e ∧
        IsCut (sorted.take j) k before := by
  rcases runs.eq_nil_or_concat with rfl | ⟨before, run, rfl⟩
  · exact absurd h.length (Nat.succ_ne_zero k).symm
  rw [List.concat_eq_append] at h ⊢
  have hflatten := h.flatten
  rw [List.flatten_append, List.flatten_singleton] at hflatten
  have hlength := congrArg List.length hflatten
  rw [List.length_append, List.length_take] at hlength
  have hrun : (sorted.take e).drop before.flatten.length = run := by
    rw [← hflatten, List.drop_left]
  have htake : before.flatten = sorted.take before.flatten.length := by
    have hleft : (before.flatten ++ run).take before.flatten.length = before.flatten :=
      List.take_left
    rwa [hflatten, List.take_take, Nat.min_eq_left (by omega), eq_comm] at hleft
  have hnonempty : ∀ r ∈ before, r ≠ [] := fun r hr => h.nonempty r (List.mem_append_left _ hr)
  have hpos := List.length_pos_iff.2 (h.nonempty run (by simp))
  have hk : before.length = k := by simpa using h.length
  refine ⟨before.flatten.length, before, by rw [hrun], ?_, by omega, hk, hnonempty, htake⟩
  exact hk ▸ length_le_length_flatten hnonempty

/-- Two neighbouring runs are put together. -/
theorem IsCut.merge {k : ℕ} {before after : List (List α)} {xs ys : List α}
    (h : IsCut sorted (k + 1) (before ++ xs :: ys :: after)) :
    IsCut sorted k (before ++ (xs ++ ys) :: after) where
  length := by
    have hlength := h.length
    simp only [List.length_append, List.length_cons] at hlength ⊢
    omega
  nonempty run hrun := by
    rcases List.mem_append.1 hrun with hrun | hrun
    · exact h.nonempty run (List.mem_append_left _ hrun)
    rcases List.mem_cons.1 hrun with rfl | hrun
    · exact List.append_ne_nil_of_left_ne_nil (h.nonempty xs (by simp)) ys
    · exact h.nonempty run (by simp [hrun])
  flatten := by simpa using h.flatten

/-- A run is cut into two. -/
theorem IsCut.split {k : ℕ} {before after : List (List α)} {xs ys : List α}
    (h : IsCut sorted k (before ++ (xs ++ ys) :: after)) (hxs : xs ≠ []) (hys : ys ≠ []) :
    IsCut sorted (k + 1) (before ++ xs :: ys :: after) where
  length := by
    have hlength := h.length
    simp only [List.length_append, List.length_cons] at hlength ⊢
    omega
  nonempty run hrun := by
    rcases List.mem_append.1 hrun with hrun | hrun
    · exact h.nonempty run (List.mem_append_left _ hrun)
    rcases List.mem_cons.1 hrun with rfl | hrun
    · exact hxs
    rcases List.mem_cons.1 hrun with rfl | hrun
    · exact hys
    · exact h.nonempty run (by simp [hrun])
  flatten := by simpa using h.flatten

/-- **What holds of the runs along a row holds of those along the next one.** The rows hold what is
known of beginnings in the places where the cut looks them up. -/
theorem exists_cutRuns? {p : ℕ → ℕ → α → ℕ → Prop} {Q : ℕ → ℕ → List (List α) → Prop}
    (hfirst : ∀ last < sorted.length, ∀ cost start, p 0 last cost start →
      start = 0 ∧ Q 0 last [sorted.take (last + 1)])
    (hnext : ∀ c last, last < sorted.length → ∀ cost start, p (c + 1) last cost start →
      c < start ∧ start ≤ last ∧ ∀ cut, Q c (start - 1) cut →
        Q (c + 1) last (cut ++ [(sorted.take (last + 1)).drop start]))
    {c : ℕ} {rows : List (GridRow α)} (hc : rows.length = c + 1) {last : ℕ}
    (hlast : last < sorted.length) (hcl : c ≤ last)
    (hfilled : ∀ r row, rows[r]? = some row → ∀ i, r ≤ i → i < sorted.length →
      r < c ∨ i = last → row.HoldsAt (p r i) i) (runs : List (List α)) :
    ∃ cut, cutRuns? sorted last runs rows.reverse = some (cut ++ runs) ∧ Q c last cut := by
  induction c generalizing rows last runs with
  | zero =>
    obtain ⟨row, rfl⟩ := List.length_eq_one_iff.1 hc
    obtain ⟨cost, start, -, hs, hp⟩ := hfilled 0 row rfl last hcl hlast (.inr rfl)
    obtain ⟨rfl, hQ⟩ := hfirst last hlast cost start hp
    have hrun : run? sorted 0 last = some (sorted.take (last + 1)) := if_pos ⟨by omega, hlast⟩
    refine ⟨[sorted.take (last + 1)], ?_, hQ⟩
    simp only [List.reverse_singleton, cutRuns?, hs, hrun, Option.bind_eq_bind, Option.bind_some]
    rfl
  | succ c ih =>
    rcases rows.eq_nil_or_concat with rfl | ⟨before, row, rfl⟩
    · exact absurd hc (Nat.succ_ne_zero _).symm
    rw [List.concat_eq_append] at hc hfilled ⊢
    have hbefore : before.length = c + 1 := by simpa using hc
    have hrow : (before ++ [row])[c + 1]? = some row := by
      rw [List.getElem?_append_right (Nat.le_of_eq hbefore), hbefore, Nat.sub_self]
      rfl
    obtain ⟨cost, start, -, hs, hp⟩ := hfilled (c + 1) row hrow last hcl hlast (.inr rfl)
    obtain ⟨hcs, hsl, hQ⟩ := hnext c last hlast cost start hp
    have hrun : run? sorted start last = some ((sorted.take (last + 1)).drop start) :=
      if_pos ⟨by omega, hlast⟩
    obtain ⟨cut, hcut, hQcut⟩ := ih hbefore (show start - 1 < sorted.length by omega) (by omega)
      (fun r row' hr i hri hi _ => by
        have hlt := (List.getElem?_eq_some_iff.1 hr).1
        exact hfilled r row' (by rwa [List.getElem?_append_left hlt]) i hri hi
          (.inl (by omega))) ((sorted.take (last + 1)).drop start :: runs)
    refine ⟨cut ++ [(sorted.take (last + 1)).drop start], ?_, hQ cut hQcut⟩
    rw [List.reverse_append, List.reverse_singleton, List.singleton_append, cutRuns?]
    simp only [hs, hrun, hcut, Option.bind_eq_bind, Option.bind_some, List.append_assoc,
      List.singleton_append]

/-! ### Classes -/

variable [Scalar α]

/-- Sorted values are cut into as many runs as there should be. -/
theorem exists_sortedClasses? {k : ℕ} (hk : 0 < k) (hle : k ≤ sorted.length) :
    ∃ runs, sortedClasses? sorted k = some runs ∧ IsCut sorted k runs := by
  obtain ⟨sums, hsums, hs⟩ :=
    Sums.exists_ofSorted? (show sorted ≠ [] from List.length_pos_iff.1 (by omega))
  obtain ⟨rows, hrows, hlength, hfilled⟩ :=
    (Grid.invariant_startsWithin hs).exists_rows? hsums hk hle
  obtain ⟨runs, hruns, hcut⟩ := exists_cutRuns? (p := Grid.StartsWithin)
    (Q := fun c last cut => IsCut (sorted.take (last + 1)) (c + 1) cut)
    (fun last hlast _ start hp => ⟨hp.1 rfl, isCut_singleton (by
      rw [← List.length_pos_iff, List.length_take]
      omega)⟩)
    (fun c last hlast _ start ⟨_, hcs, hsl⟩ => ⟨hcs, hsl, fun cut hcut => by
      rw [Nat.sub_add_cancel (by omega)] at hcut
      exact hcut.concat (by omega) hlast⟩)
    (show rows.length = k - 1 + 1 by omega) (show sorted.length - 1 < sorted.length by omega)
    (by omega) (fun r row hr i hri hi hcase => hfilled r row hr i hri hi (by omega)) []
  rw [Nat.sub_add_cancel (by omega), Nat.sub_add_cancel hk, List.take_length] at hcut
  refine ⟨runs, ?_, hcut⟩
  simp only [sortedClasses?, hrows, minus?, if_pos (show 1 ≤ sorted.length by omega),
    Option.bind_eq_bind, Option.bind_some, hruns, List.append_nil]

theorem distinctCount_le_length (xs : List α) : distinctCount xs ≤ xs.length := by
  induction xs using distinctCount.induct with
  | case1 => exact Nat.le_refl _
  | case2 x => exact Nat.le_refl _
  | case3 x y r ih =>
    rw [distinctCount, List.length_cons]
    split <;> omega

theorem distinctCount_pos {xs : List α} (h : xs ≠ []) : 0 < distinctCount xs := by
  induction xs using distinctCount.induct with
  | case1 => exact absurd rfl h
  | case2 x => exact Nat.one_pos
  | case3 x y r ih =>
    rw [distinctCount]
    have := ih (List.cons_ne_nil y r)
    omega

/-- There are classes, which are a cut of the sorted values, or an error. -/
theorem classes?_cases (values : List α) (k : ℕ) :
    (∃ e, classes? values k = some (.error e)) ∨
      ∃ runs, classes? values k = some (.ok runs) ∧ IsCut (sortValues values) k runs := by
  rw [classes?]
  by_cases hempty : values.isEmpty = true
  · exact .inl ⟨_, if_pos hempty⟩
  rw [if_neg hempty]
  have hsorted : (sortValues values).length = values.length := List.length_mergeSort _
  have hne : sortValues values ≠ [] := by
    rw [← List.length_pos_iff, hsorted]
    exact List.length_pos_iff.2 fun h => hempty (List.isEmpty_iff.2 h)
  have hpos := distinctCount_pos hne
  have hle := distinctCount_le_length (sortValues values)
  split_ifs with hk
  · exact .inl ⟨_, rfl⟩
  · exact .inl ⟨_, rfl⟩
  · dsimp only
    split_ifs with hmany hone
    · exact .inl ⟨_, rfl⟩
    · obtain rfl : k = 1 := by omega
      exact .inr ⟨_, rfl, isCut_singleton hne⟩
    · obtain ⟨runs, hruns, hcut⟩ := exists_sortedClasses? (Nat.pos_of_ne_zero hk)
        (show k ≤ (sortValues values).length by omega)
      exact .inr ⟨runs, by rw [hruns]; rfl, hcut⟩

/-- There are classes of ordinary values if enough of them are different. -/
theorem exists_classes?_ok {values : List α} {k : ℕ} (hne : values ≠ []) (hk : 0 < k)
    (hfinite : ∀ x ∈ values, Scalar.isFinite x = true)
    (hd : k ≤ distinctCount (sortValues values)) : ∃ runs, classes? values k = some (.ok runs) := by
  rcases classes?_cases values k with ⟨e, h⟩ | ⟨runs, h, -⟩
  · have hempty : ¬values.isEmpty = true := fun h => hne (List.isEmpty_iff.1 h)
    have hall : ¬(values.any fun x => !Scalar.isFinite x) = true := by simpa using hfinite
    rw [classes?, if_neg hempty, if_neg (Nat.ne_of_gt hk), if_neg hall] at h
    dsimp only at h
    rw [if_neg (Nat.not_lt.2 hd)] at h
    split_ifs at h
    · cases h
    · obtain ⟨cut, -, hcut⟩ := Option.map_eq_some_iff.1 h
      cases hcut
  · exact ⟨runs, h⟩

/-- **All values have classes or an error.** No place is looked up that is not there. -/
theorem exists_classes? (values : List α) (k : ℕ) : ∃ result, classes? values k = some result := by
  rcases classes?_cases values k with ⟨e, h⟩ | ⟨runs, h, -⟩
  · exact ⟨_, h⟩
  · exact ⟨_, h⟩

/-- **The classes of values are a cut of the sorted values.** -/
theorem isCut_of_classes? {values : List α} {k : ℕ} {runs : List (List α)}
    (h : classes? values k = some (.ok runs)) : IsCut (sortValues values) k runs := by
  rcases classes?_cases values k with ⟨e, he⟩ | ⟨runs', hr, hcut⟩
  · rw [h] at he
    cases he
  · rw [h, Option.some.injEq, Except.ok.injEq] at hr
    exact hr ▸ hcut

/-- Values that have classes are ordinary ones, and enough of them are different. Equal values have
a single class, and others the runs that are cut off along the grid. -/
theorem of_classes? {values : List α} {k : ℕ} {runs : List (List α)}
    (h : classes? values k = some (.ok runs)) :
    0 < k ∧ (∀ x ∈ values, Scalar.isFinite x = true) ∧ k ≤ distinctCount (sortValues values) ∧
      (k = 1 ∧ runs = [sortValues values] ∨
        sortedClasses? (sortValues values) k = some runs) := by
  rw [classes?] at h
  dsimp only at h
  split_ifs at h with _ hk hfinite hmany hone
  · cases h
  · cases h
  · cases h
  · cases h
  · rw [Option.some.injEq, Except.ok.injEq] at h
    exact ⟨Nat.pos_of_ne_zero hk, by simpa using hfinite, Nat.not_lt.1 hmany,
      .inl ⟨by omega, h.symm⟩⟩
  · obtain ⟨cut, hcut, hok⟩ := Option.map_eq_some_iff.1 h
    rw [Except.ok.injEq] at hok
    exact ⟨Nat.pos_of_ne_zero hk, by simpa using hfinite, Nat.not_lt.1 hmany, .inr (hok ▸ hcut)⟩

end Choropleth
