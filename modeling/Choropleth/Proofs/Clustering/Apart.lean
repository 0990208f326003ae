import Choropleth.Proofs.Clustering.Optimal

/-!
# Equal values in best cuts

A best cut never divides equal values among two runs, as long as there are as many different values
as runs: moving one of the equal values to the other run, or putting the two runs together and
cutting another one, would lower the total of the squared deviations.

* `IsApart`: all values of a run are smaller than those of later runs;
* `squaredDeviations_move_lt`: moving a value to the run that it is nearer to;
* `exists_run_of_card`: a run with different values, if two others hold equal values only;
* `IsCut.isApart`: best cuts keep equal values together.
-/

open Finset

namespace Choropleth

/-- The values of every run are smaller than those of later runs. -/
def IsApart {α : Type} [LT α] (runs : List (List α)) : Prop :=
  runs.Pairwise fun r s => ∀ x ∈ r, ∀ y ∈ s, x < y

/-! ### Deviations of lists -/

/-- The sum of the squared deviations of values from a number. -/
def deviationsFrom (μ : ℚ) (xs : List ℚ) : ℚ := (xs.map fun x => (x - μ) ^ 2).sum

/-- Deviations from another number than the mean are greater by its distance. -/
theorem deviationsFrom_eq {xs : List ℚ} (h : xs ≠ []) (μ : ℚ) :
    deviationsFrom μ xs = squaredDeviations xs + xs.length * (average xs - μ) ^ 2 := by
  have hlength : (xs.length : ℚ) ≠ 0 := by simpa using h
  have hsum : xs.sum = xs.length * average xs := by rw [average, mul_div_cancel₀ _ hlength]
  have hmap (ys : List ℚ) (a b : ℚ) : (ys.map fun x => (x - b) ^ 2).sum =
      (ys.map fun x => (x - a) ^ 2).sum + 2 * (a - b) * ys.sum - ys.length * (a ^ 2 - b ^ 2) := by
    induction ys with
    | nil => simp
    | cons y ys ih =>
      simp only [List.map_cons, List.sum_cons, List.length_cons, ih]
      push_cast
      ring
  rw [deviationsFrom, squaredDeviations, hmap xs (average xs) μ, hsum]
  ring

theorem squaredDeviations_le (xs : List ℚ) (μ : ℚ) :
    squaredDeviations xs ≤ deviationsFrom μ xs := by
  rcases eq_or_ne xs [] with rfl | h
  · exact le_rfl
  · rw [deviationsFrom_eq h]
    exact le_add_of_nonneg_right (by positivity)

theorem average_perm {xs ys : List ℚ} (h : xs.Perm ys) : average xs = average ys := by
  rw [average, average, h.sum_eq, h.length_eq]

theorem squaredDeviations_perm {xs ys : List ℚ} (h : xs.Perm ys) :
    squaredDeviations xs = squaredDeviations ys := by
  rw [squaredDeviations, squaredDeviations, average_perm h]
  exact (h.map _).sum_eq

theorem deviationsFrom_cons (μ x : ℚ) (xs : List ℚ) :
    deviationsFrom μ (x :: xs) = (x - μ) ^ 2 + deviationsFrom μ xs := by
  rw [deviationsFrom, List.map_cons, List.sum_cons, deviationsFrom]

/-- Taking a value out of a run takes away its deviation at least. -/
theorem squaredDeviations_cons_ge (x : ℚ) (ys : List ℚ) :
    (x - average (x :: ys)) ^ 2 + squaredDeviations ys ≤ squaredDeviations (x :: ys) := by
  calc (x - average (x :: ys)) ^ 2 + squaredDeviations ys
      ≤ (x - average (x :: ys)) ^ 2 + deviationsFrom (average (x :: ys)) ys :=
        add_le_add_right (squaredDeviations_le ys _) _
    _ = squaredDeviations (x :: ys) := (deviationsFrom_cons _ x ys).symm

theorem squaredDeviations_eq_zero {xs : List ℚ} {x : ℚ} (h : ∀ y ∈ xs, y = x) :
    squaredDeviations xs = 0 := by
  refine le_antisymm ((squaredDeviations_le xs x).trans_eq ?_) ?_
  · refine List.sum_eq_zero fun z hz => ?_
    obtain ⟨y, hy, rfl⟩ := List.mem_map.1 hz
    rw [h y hy, sub_self, zero_pow two_ne_zero]
  · refine List.sum_nonneg fun z hz => ?_
    obtain ⟨y, -, rfl⟩ := List.mem_map.1 hz
    exact sq_nonneg _

theorem average_cons_mul (x : ℚ) (xs : List ℚ) :
    average (x :: xs) * (xs.length + 1) = x + xs.sum := by
  have hlength : ((xs.length : ℚ) + 1) ≠ 0 := by positivity
  rw [average, List.sum_cons, List.length_cons]
  push_cast
  rw [div_mul_cancel₀ _ hlength]

/-- **Moving a value to a run that it is nearer to lowers the deviations**, unless it is the mean of
both runs. -/
theorem squaredDeviations_move_lt {xs : List ℚ} (ys : List ℚ) {x : ℚ} (hxs : xs ≠ [])
    (hle : (x - average xs) ^ 2 ≤ (x - average (x :: ys)) ^ 2)
    (hne : ¬(average xs = x ∧ average (x :: ys) = x)) :
    squaredDeviations (x :: xs) + squaredDeviations ys <
      squaredDeviations xs + squaredDeviations (x :: ys) := by
  have hmoved := deviationsFrom_eq (List.cons_ne_nil x xs) (average xs)
  rw [deviationsFrom_cons, show deviationsFrom (average xs) xs = squaredDeviations xs from rfl]
    at hmoved
  have hleft := squaredDeviations_cons_ge x ys
  have hlength : (0 : ℚ) < (x :: xs).length := by
    rw [List.length_cons]
    positivity
  have hsq : 0 ≤ ((x :: xs).length : ℚ) * (average (x :: xs) - average xs) ^ 2 := by positivity
  by_cases hx : average xs = x
  · have hpos : 0 < (x - average (x :: ys)) ^ 2 :=
      sq_pos_of_ne_zero (sub_ne_zero.2 fun h => hne ⟨hx, h.symm⟩)
    rw [hx, sub_self, zero_pow two_ne_zero] at hmoved hle
    rw [hx] at hsq
    linarith
  · -- the mean of the run that the value is moved to changes
    have hmean : average (x :: xs) ≠ average xs := by
      intro h
      have hsum := average_cons_mul x xs
      have hxs' : (xs.length : ℚ) ≠ 0 := by simpa using hxs
      have haverage : average xs * xs.length = xs.sum := div_mul_cancel₀ _ hxs'
      rw [h] at hsum
      exact hx (by linarith)
    have hpos := mul_pos hlength (sq_pos_of_ne_zero (sub_ne_zero.2 hmean))
    linarith

/-! ### Runs of equal values -/

theorem eq_zero_of_sum_nonpos {f : ℚ → ℚ} {xs : List ℚ} (h : ∀ y ∈ xs, 0 ≤ f y)
    (hsum : (xs.map f).sum ≤ 0) : ∀ y ∈ xs, f y = 0 := by
  induction xs with
  | nil => exact nofun
  | cons x xs ih =>
    obtain ⟨hx, hxs⟩ := List.forall_mem_cons.1 h
    have hrest : 0 ≤ (xs.map f).sum := List.sum_nonneg fun z hz => by
      obtain ⟨y, hy, rfl⟩ := List.mem_map.1 hz
      exact hxs y hy
    rw [List.map_cons, List.sum_cons] at hsum
    exact List.forall_mem_cons.2 ⟨by linarith, ih hxs (by linarith)⟩

theorem sum_sub_average (xs : List ℚ) : (xs.map fun y => y - average xs).sum = 0 := by
  have hsub (ys : List ℚ) (x : ℚ) : (ys.map fun y => y - x).sum = ys.sum - ys.length * x := by
    induction ys with
    | nil => simp
    | cons y ys ih =>
      simp only [List.map_cons, List.sum_cons, List.length_cons, ih]
      push_cast
      ring
  rcases eq_or_ne xs [] with rfl | h
  · rfl
  · have hlength : (xs.length : ℚ) ≠ 0 := by simpa using h
    rw [hsub, average, mul_div_cancel₀ _ hlength, sub_self]

/-- Values that are all at least their mean are equal. -/
theorem eq_of_average_le {xs : List ℚ} (h : ∀ y ∈ xs, average xs ≤ y) :
    ∀ y ∈ xs, y = average xs := fun y hy =>
  sub_eq_zero.1 (eq_zero_of_sum_nonpos (fun z hz => sub_nonneg.2 (h z hz))
    (sum_sub_average xs).le y hy)

/-- Values that are all at most their mean are equal. -/
theorem eq_of_le_average {xs : List ℚ} (h : ∀ y ∈ xs, y ≤ average xs) :
    ∀ y ∈ xs, y = average xs := by
  have hneg : (xs.map fun y => average xs - y).sum ≤ 0 := by
    have hmap : (xs.map fun y => average xs - y) = (xs.map fun y => y - average xs).map (-·) := by
      rw [List.map_map]
      exact List.map_congr_left fun y _ => (neg_sub y _).symm
    rw [hmap, ← List.sum_neg, sum_sub_average, neg_zero]
  exact fun y hy => (sub_eq_zero.1 (eq_zero_of_sum_nonpos (fun z hz => sub_nonneg.2 (h z hz))
    hneg y hy)).symm

/-- If two runs hold one value only, another one holds different values, provided that there are as
many different values as runs. -/
theorem exists_run_of_card {sorted : List ℚ} {before after : List (List ℚ)} {xs ys : List ℚ} {x : ℚ}
    {k : ℕ} (h : IsCut sorted k (before ++ xs :: ys :: after)) (hd : k ≤ sorted.toFinset.card)
    (hxs : ∀ y ∈ xs, y = x) (hys : ∀ y ∈ ys, y = x) :
    ∃ run ∈ before ++ after, ∃ y r, run = y :: r ∧ ∃ z ∈ r, z ≠ y := by
  by_contra hcon
  push Not at hcon
  -- otherwise the first values of the runs, one of the two left out, are all the values
  have hsub : sorted.toFinset ⊆ (x :: (before ++ after).map fun run => run.headD 0).toFinset := by
    intro y hy
    rw [List.mem_toFinset, ← h.flatten, List.mem_flatten] at hy
    obtain ⟨run, hrun, hy⟩ := hy
    rw [List.mem_toFinset, List.mem_cons, List.mem_map]
    by_cases hmem : run ∈ before ++ after
    · obtain ⟨z, r, rfl⟩ := List.exists_cons_of_ne_nil (List.ne_nil_of_mem hy)
      refine .inr ⟨z :: r, hmem, ?_⟩
      rcases List.mem_cons.1 hy with rfl | hy
      · rfl
      · exact (hcon _ hmem z r rfl y hy).symm
    · have hcases : run = xs ∨ run = ys := by
        simp only [List.mem_append, List.mem_cons] at hrun hmem
        tauto
      rcases hcases with rfl | rfl
      · exact .inl (hxs y hy)
      · exact .inl (hys y hy)
  have hcard := (card_le_card hsub).trans (List.toFinset_card_le _)
  have hlength := h.length
  simp only [List.length_append, List.length_cons, List.length_map] at hcard hlength
  omega

/-! ### Best cuts -/

theorem totalDeviation_append (runs others : List (List ℚ)) :
    totalDeviation (runs ++ others) = totalDeviation runs + totalDeviation others := by
  simp [totalDeviation]

theorem totalDeviation_cons (run : List ℚ) (runs : List (List ℚ)) :
    totalDeviation (run :: runs) = squaredDeviations run + totalDeviation runs := by
  simp [totalDeviation]

theorem squaredDeviations_singleton (x : ℚ) : squaredDeviations [x] = 0 :=
  squaredDeviations_eq_zero (x := x) (by simp)

/-- Cutting the first value off a run with different values lowers the deviations. -/
theorem squaredDeviations_lt_cons {y : ℚ} {r : List ℚ} (hs : (y :: r).Pairwise (· ≤ ·))
    (hz : ∃ z ∈ r, z ≠ y) : squaredDeviations r < squaredDeviations (y :: r) := by
  have hne : y ≠ average (y :: r) := by
    intro h
    have hle : ∀ z ∈ y :: r, average (y :: r) ≤ z :=
      List.forall_mem_cons.2 ⟨h.ge, fun z hz => h ▸ (List.pairwise_cons.1 hs).1 z hz⟩
    obtain ⟨z, hz, hzy⟩ := hz
    exact hzy ((eq_of_average_le hle z (List.mem_cons_of_mem y hz)).trans h.symm)
  have hpos := sq_pos_of_ne_zero (sub_ne_zero.2 hne)
  have hle := squaredDeviations_cons_ge y r
  linarith

/-- Runs of ascending values are apart if neighbouring ones are. -/
theorem isApart_of_adjacent {runs : List (List ℚ)} (hne : ∀ run ∈ runs, run ≠ [])
    (hs : runs.flatten.Pairwise (· ≤ ·))
    (h : ∀ before xs ys after, runs = before ++ xs :: ys :: after → ∀ x ∈ xs, ∀ y ∈ ys, x < y) :
    IsApart runs := by
  induction runs with
  | nil => exact .nil
  | cons xs runs ih =>
    obtain ⟨-, hruns⟩ := List.forall_mem_cons.1 hne
    rw [List.flatten_cons, List.pairwise_append] at hs
    have hrest := ih hruns hs.2.1 fun before ys zs after heq =>
      h (xs :: before) ys zs after (congrArg (xs :: ·) heq)
    refine List.pairwise_cons.2 ⟨fun zs hzs x hx z hz => ?_, hrest⟩
    cases runs with
    | nil => cases hzs
    | cons ys runs =>
      rcases List.mem_cons.1 hzs with rfl | hzs
      · exact h [] xs zs runs rfl x hx z hz
      · obtain ⟨y, hy⟩ := List.exists_mem_of_ne_nil ys (hruns ys List.mem_cons_self)
        have hyz := (List.pairwise_cons.1 hrest).1 zs hzs y hy z hz
        exact (h [] xs ys runs rfl x hx y hy).trans hyz

section

variable {sorted : List ℚ} {k : ℕ} {before after : List (List ℚ)} {xs ys : List ℚ} {a : ℚ}

/-- If equal values are divided among two runs, one of them can be moved to the other run so that
the deviations are lower, unless both runs hold no other values. -/
theorem exists_lower_of_move
    (h : IsCut sorted (k + 1) (before ++ (xs ++ [a]) :: (a :: ys) :: after))
    (hne : ¬(average (a :: xs) = a ∧ average (a :: ys) = a)) :
    ∃ others, IsCut sorted (k + 1) others ∧ totalDeviation others <
      totalDeviation (before ++ (xs ++ [a]) :: (a :: ys) :: after) := by
  have hmerged := h.merge
  have hperm : squaredDeviations (xs ++ [a]) = squaredDeviations (a :: xs) :=
    squaredDeviations_perm (List.perm_append_singleton a xs)
  have hmean : average (xs ++ [a]) = average (a :: xs) :=
    average_perm (List.perm_append_singleton a xs)
  have hsingle : (a - average [a]) ^ 2 = 0 := by simp [average]
  rcases le_total ((a - average (a :: xs)) ^ 2) ((a - average (a :: ys)) ^ 2) with hle | hle
  · -- the value goes to the left
    have hys : ys ≠ [] := by
      rintro rfl
      rw [hsingle] at hle
      have hxs := (sq_nonpos_iff _).1 hle
      exact hne ⟨(sub_eq_zero.1 hxs).symm, by simp [average]⟩
    rw [show (xs ++ [a]) ++ (a :: ys) = (xs ++ [a] ++ [a]) ++ ys by simp] at hmerged
    refine ⟨_, hmerged.split (by simp) hys, ?_⟩
    rw [← hmean] at hle hne
    have hlt := squaredDeviations_move_lt ys (by simp) hle hne
    have hperm' : squaredDeviations (xs ++ [a] ++ [a]) = squaredDeviations (a :: (xs ++ [a])) :=
      squaredDeviations_perm (List.perm_append_singleton a (xs ++ [a]))
    simp only [totalDeviation_append, totalDeviation_cons, hperm']
    linarith
  · -- the value goes to the right
    have hxs : xs ≠ [] := by
      rintro rfl
      rw [hsingle] at hle
      have hys := (sq_nonpos_iff _).1 hle
      exact hne ⟨by simp [average], (sub_eq_zero.1 hys).symm⟩
    rw [List.append_assoc, List.singleton_append] at hmerged
    refine ⟨_, hmerged.split hxs (by simp), ?_⟩
    have hlt := squaredDeviations_move_lt xs (by simp) hle fun hboth => hne hboth.symm
    simp only [totalDeviation_append, totalDeviation_cons, hperm]
    linarith

/-- If two runs hold one value only, they can be put together and another run be cut so that the
deviations are lower. -/
theorem exists_lower_of_merge (hs : sorted.Pairwise (· ≤ ·)) (hd : k + 1 ≤ sorted.toFinset.card)
    (h : IsCut sorted (k + 1) (before ++ xs :: ys :: after)) (hxs : ∀ z ∈ xs, z = a)
    (hys : ∀ z ∈ ys, z = a) :
    ∃ others, IsCut sorted (k + 1) others ∧
      totalDeviation others < totalDeviation (before ++ xs :: ys :: after) := by
  obtain ⟨run, hrun, y, r, rfl, hz⟩ := exists_run_of_card h hd hxs hys
  have hmerged := h.merge
  obtain ⟨left, right, hlist⟩ : ∃ left right, before ++ (xs ++ ys) :: after =
      left ++ (y :: r) :: right := by
    refine List.append_of_mem (List.mem_append.2 ((List.mem_append.1 hrun).imp_right ?_))
    exact List.mem_cons_of_mem _
  have hrunSorted : (y :: r).Pairwise (· ≤ ·) := by
    rw [← hmerged.flatten, hlist, List.pairwise_flatten] at hs
    exact hs.1 _ (by simp)
  have htotal := congrArg totalDeviation hlist
  rw [hlist, show y :: r = [y] ++ r from rfl] at hmerged
  refine ⟨_, hmerged.split (by simp) (List.ne_nil_of_mem hz.choose_spec.1), ?_⟩
  have hlt := squaredDeviations_lt_cons hrunSorted hz
  have hzero : squaredDeviations (xs ++ ys) = 0 :=
    squaredDeviations_eq_zero (List.forall_mem_append.2 ⟨hxs, hys⟩)
  simp only [totalDeviation_append, totalDeviation_cons, squaredDeviations_singleton, hzero,
    squaredDeviations_eq_zero hxs, squaredDeviations_eq_zero hys] at htotal ⊢
  linarith

end

/-- **Best cuts keep equal values together.** -/
theorem IsCut.isApart {sorted : List ℚ} (hs : sorted.Pairwise (· ≤ ·)) {k : ℕ}
    {runs : List (List ℚ)} (h : IsCut sorted (k + 1) runs) (hd : k + 1 ≤ sorted.toFinset.card)
    (hbest : ∀ others, IsCut sorted (k + 1) others → totalDeviation runs ≤ totalDeviation others) :
    IsApart runs := by
  have hflat := hs
  rw [← h.flatten] at hflat
  refine isApart_of_adjacent h.nonempty hflat ?_
  rintro before xs ys after rfl x hx y hy
  obtain ⟨hwithin, hacross⟩ := List.pairwise_flatten.1 hflat
  by_contra hxy
  -- the last value of the one run and the first of the other one are equal then
  obtain ⟨xs', a, rfl⟩ := (List.eq_nil_or_concat' xs).resolve_left (h.nonempty xs (by simp))
  obtain ⟨b, ys', rfl⟩ := List.exists_cons_of_ne_nil (h.nonempty ys (by simp))
  have hmax : ∀ z ∈ xs' ++ [a], z ≤ a := by
    have hrun := List.pairwise_append.1 (hwithin (xs' ++ [a]) (by simp))
    exact List.forall_mem_append.2 ⟨fun z hz => hrun.2.2 z hz a (by simp), by simp⟩
  have hmin : ∀ z ∈ b :: ys', b ≤ z := by
    have hrun := List.pairwise_cons.1 (hwithin (b :: ys') (by simp))
    exact List.forall_mem_cons.2 ⟨le_rfl, hrun.1⟩
  have hab : a ≤ b := by
    have hruns := (List.pairwise_append.1 hacross).2.1
    exact (List.pairwise_cons.1 hruns).1 (b :: ys') (by simp) a (by simp) b (by simp)
  obtain rfl : a = b := by linarith [hmax x hx, hmin y hy]
  obtain ⟨others, hothers, hlt⟩ : ∃ others, IsCut sorted (k + 1) others ∧ totalDeviation others <
      totalDeviation (before ++ (xs' ++ [a]) :: (a :: ys') :: after) := by
    by_cases hboth : average (a :: xs') = a ∧ average (a :: ys') = a
    · have hmean : average (xs' ++ [a]) = a :=
        (average_perm (List.perm_append_singleton a xs')).trans hboth.1
      have hleft : ∀ z ∈ xs' ++ [a], z = average (xs' ++ [a]) :=
        eq_of_le_average (by rwa [hmean])
      have hright : ∀ z ∈ a :: ys', z = average (a :: ys') :=
        eq_of_average_le (by rwa [hboth.2])
      rw [hmean] at hleft
      rw [hboth.2] at hright
      exact exists_lower_of_merge hs hd h hleft hright
    · exact exists_lower_of_move h hboth
  exact absurd (hbest others hothers) (not_le.2 hlt)

/-- **Without rounding, classes keep equal values together.** -/
theorem exists_isApart_classes {values : List ℚ} {k : ℕ} (hne : values ≠ []) (hk : 1 ≤ k)
    (hd : k ≤ values.toFinset.card) :
    ∃ runs, classes? values k = some (.ok runs) ∧ IsApart runs := by
  obtain ⟨k, rfl⟩ := Nat.exists_eq_add_one_of_ne_zero (show k ≠ 0 by omega)
  obtain ⟨runs, hruns, hbest⟩ := exists_classes_least hne hk hd
  have hcard : (sortValues values).toFinset = values.toFinset := by
    ext x
    simp [mem_sortValues]
  exact ⟨runs, hruns, (isCut_of_classes? hruns).isApart (pairwise_sortValues_rat values)
    (hcard ▸ hd) hbest⟩

end Choropleth
