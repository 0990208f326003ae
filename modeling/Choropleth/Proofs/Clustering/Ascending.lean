import Choropleth.Proofs.Clustering.Apart
import Choropleth.Proofs.Clustering.Vanishing

/-!
# Upper bounds of classes

The upper bounds of classes are in ascending order. They are different, and the bins between them
hold the same values as the classes, exactly if no equal values are divided among two classes.
Without rounding this is always so; with rounding, deviations can vanish or cancel, and then equal
values may be divided.

* `InBin`, `Reproduces`: the bins between bounds, and bounds that reproduce runs;
* `IsCut.reproduces_iff`: when bounds reproduce the runs of a cut;
* `upperBounds_of_vanish`: the upper bounds of classes whose deviations vanish;
* `exists_haveBounds_rat`: the upper bounds of classes without rounding;
* `upperBounds_ascend`: those with rounding.
-/

namespace Choropleth

/-! ### Bins -/

section

variable {α : Type}

/-- The last values of runs. -/
def lastValues (runs : List (List α)) : List α := runs.filterMap List.getLast?

/-- A value lies in a bin: above the bound before it, if there is one, and not above its own. -/
def InBin [LT α] [LE α] (bounds : List α) (c : ℕ) (x : α) : Prop :=
  (∀ d b, c = d + 1 → bounds[d]? = some b → b < x) ∧ ∀ b, bounds[c]? = some b → x ≤ b

/-- The bins between bounds hold the same values as the runs. -/
def Reproduces [LT α] [LE α] (bounds : List α) (runs : List (List α)) : Prop :=
  ∀ c run, runs[c]? = some run → ∀ x ∈ runs.flatten, x ∈ run ↔ InBin bounds c x

theorem lastValues_sublist (runs : List (List α)) : (lastValues runs).Sublist runs.flatten := by
  induction runs with
  | nil => exact .slnil
  | cons run runs ih =>
    rw [lastValues, List.filterMap_cons, List.flatten_cons]
    cases hlast : run.getLast? with
    | none => exact ih.trans (List.sublist_append_right _ _)
    | some x =>
      have hx : [x].Sublist run := List.singleton_sublist.2 (List.mem_of_getLast? hlast)
      exact hx.append ih

theorem length_lastValues {runs : List (List α)} (h : ∀ run ∈ runs, run ≠ []) :
    (lastValues runs).length = runs.length := by
  induction runs with
  | nil => rfl
  | cons run runs ih =>
    obtain ⟨hrun, hruns⟩ := List.forall_mem_cons.1 h
    rw [lastValues, List.filterMap_cons, List.getLast?_eq_some_getLast hrun, List.length_cons,
      List.length_cons]
    exact congrArg (· + 1) (ih hruns)

theorem getElem?_lastValues {runs : List (List α)} (h : ∀ run ∈ runs, run ≠ []) (c : ℕ) :
    (lastValues runs)[c]? = runs[c]?.bind List.getLast? := by
  induction runs generalizing c with
  | nil => rfl
  | cons run runs ih =>
    obtain ⟨hrun, hruns⟩ := List.forall_mem_cons.1 h
    rw [lastValues, List.filterMap_cons, List.getLast?_eq_some_getLast hrun]
    cases c with
    | zero => simp [List.getLast?_eq_some_getLast hrun]
    | succ c => exact ih hruns c

end

/-! ### Bounds of cuts -/

theorem IsCut.mem_of_mem_lastValues {α : Type} {sorted : List α} {k : ℕ} {runs : List (List α)}
    (h : IsCut sorted k runs) {x : α} (hx : x ∈ lastValues runs) : x ∈ sorted :=
  h.flatten ▸ (lastValues_sublist runs).subset hx

theorem IsCut.mem_of_mem {α : Type} {sorted : List α} {k : ℕ} {runs : List (List α)}
    (h : IsCut sorted k runs) {run : List α} (hrun : run ∈ runs) {x : α} (hx : x ∈ run) :
    x ∈ sorted :=
  h.flatten ▸ List.mem_flatten.2 ⟨run, hrun, hx⟩

/-- Values are compared by their keys and stand in ascending order. -/
structure OrderedBy {α β : Type} [LT α] [LE α] [LinearOrder β] (key : α → β) (xs : List α) :
    Prop where
  lt : ∀ x ∈ xs, ∀ y ∈ xs, x < y ↔ key x < key y
  le : ∀ x ∈ xs, ∀ y ∈ xs, x ≤ y ↔ key x ≤ key y
  sorted : xs.Pairwise fun x y => key x ≤ key y

section

variable {α β : Type} [LT α] [LE α] [LinearOrder β] {key : α → β} {sorted : List α} {k : ℕ}
  {runs : List (List α)}

/-- The last values of runs ascend. -/
theorem IsCut.pairwise_lastValues (h : IsCut sorted k runs) (ho : OrderedBy key sorted) :
    (lastValues runs).Pairwise (· ≤ ·) := by
  have hs := ho.sorted
  rw [← h.flatten] at hs
  exact (hs.sublist (lastValues_sublist runs)).imp_of_mem fun hx hy hle =>
    (ho.le _ (h.mem_of_mem_lastValues hx) _ (h.mem_of_mem_lastValues hy)).2 hle

/-- The bound of a run is its greatest value. -/
theorem IsCut.exists_bound (h : IsCut sorted k runs) (ho : OrderedBy key sorted) {c : ℕ}
    {run : List α} (hc : runs[c]? = some run) :
    ∃ b ∈ run, (lastValues runs)[c]? = some b ∧ ∀ x ∈ run, key x ≤ key b := by
  have hrun := List.mem_of_getElem? hc
  have hlast := List.getLast?_eq_some_getLast (h.nonempty run hrun)
  have hs := ho.sorted
  rw [← h.flatten, List.pairwise_flatten] at hs
  refine ⟨_, List.getLast_mem (h.nonempty run hrun), ?_, fun x hx => ?_⟩
  · rw [getElem?_lastValues h.nonempty, hc, Option.bind_some, hlast]
  · have hsplit := List.dropLast_append_getLast (h.nonempty run hrun)
    rw [← hsplit] at hx
    rcases List.mem_append.1 hx with hx | hx
    · have hpair := hs.1 run hrun
      rw [← hsplit] at hpair
      exact (List.pairwise_append.1 hpair).2.2 x hx _ List.mem_cons_self
    · rw [List.mem_singleton.1 hx]

/-- Bounds further on are not smaller. -/
theorem IsCut.bound_le (h : IsCut sorted k runs) (ho : OrderedBy key sorted) {c d : ℕ} {a b : α}
    (ha : (lastValues runs)[c]? = some a) (hb : (lastValues runs)[d]? = some b) (hcd : c ≤ d) :
    key a ≤ key b := by
  rcases Nat.lt_or_eq_of_le hcd with hlt | rfl
  · obtain ⟨hc, rfl⟩ := List.getElem?_eq_some_iff.1 ha
    obtain ⟨hd, rfl⟩ := List.getElem?_eq_some_iff.1 hb
    have hle := List.pairwise_iff_getElem.1 (h.pairwise_lastValues ho) c d hc hd hlt
    exact (ho.le _ (h.mem_of_mem_lastValues (List.getElem_mem hc)) _
      (h.mem_of_mem_lastValues (List.getElem_mem hd))).1 hle
  · rw [ha, Option.some.injEq] at hb
    rw [hb]

/-- Runs are apart if every value lies in the bin of its run. -/
theorem IsCut.isApart_of_inBin (h : IsCut sorted k runs) (ho : OrderedBy key sorted)
    (hin : ∀ c run, runs[c]? = some run → ∀ x ∈ run, InBin (lastValues runs) c x) :
    IsApart runs := by
  refine List.pairwise_iff_getElem.2 fun c d hc hd hcd x hx y hy => ?_
  obtain ⟨d, rfl⟩ := Nat.exists_eq_add_one_of_ne_zero (show d ≠ 0 by omega)
  obtain ⟨a, ha, hac, hxa⟩ := h.exists_bound ho (List.getElem?_eq_getElem hc)
  obtain ⟨b, hb, hbd, -⟩ := h.exists_bound ho (List.getElem?_eq_getElem (Nat.lt_of_succ_lt hd))
  have hxs := h.mem_of_mem (List.getElem_mem hc) hx
  have hys := h.mem_of_mem (List.getElem_mem hd) hy
  have hbs := h.mem_of_mem (List.getElem_mem _) hb
  -- the one value is at most its bound, which is at most the bound before the other value
  have hab : key a ≤ key b := h.bound_le ho hac hbd (Nat.le_of_lt_succ hcd)
  have hby : b < y := (hin (d + 1) _ (List.getElem?_eq_getElem hd) y hy).1 d b rfl hbd
  refine (ho.lt x hxs y hys).2 ?_
  calc key x ≤ key a := hxa x hx
    _ ≤ key b := hab
    _ < key y := (ho.lt b hbs y hys).1 hby

/-- The bins between the bounds of runs that are apart hold their values. -/
theorem IsCut.reproduces (h : IsCut sorted k runs) (ho : OrderedBy key sorted)
    (hr : IsApart runs) : Reproduces (lastValues runs) runs := by
  have hlt {c d : ℕ} (hcd : c < d) {r s : List α} (hc : runs[c]? = some r)
      (hd : runs[d]? = some s) : ∀ x ∈ r, ∀ y ∈ s, x < y := by
    obtain ⟨hc', rfl⟩ := List.getElem?_eq_some_iff.1 hc
    obtain ⟨hd', rfl⟩ := List.getElem?_eq_some_iff.1 hd
    exact List.pairwise_iff_getElem.1 hr c d hc' hd' hcd
  intro c run hc x hx
  obtain ⟨b, hb, hbc, hle⟩ := h.exists_bound ho hc
  have hbs := h.mem_of_mem (List.mem_of_getElem? hc) hb
  have hxs := h.flatten ▸ hx
  constructor
  · refine fun hxr => ⟨fun d a hcd hbd => ?_, fun b' hb' => ?_⟩
    · subst hcd
      have hd := (List.getElem?_eq_some_iff.1 hc).1
      obtain ⟨a', ha', had, -⟩ :=
        h.exists_bound ho (List.getElem?_eq_getElem (Nat.lt_of_succ_lt hd))
      rw [had, Option.some.injEq] at hbd
      subst hbd
      exact hlt (Nat.lt_succ_self d) (List.getElem?_eq_getElem _) hc a' ha' x hxr
    · rw [hbc, Option.some.injEq] at hb'
      subst hb'
      exact (ho.le x hxs b hbs).2 (hle x hxr)
  · -- the run that the value belongs to is neither before nor after the bin
    rintro ⟨habove, hbelow⟩
    obtain ⟨s, hs, hxr⟩ := List.mem_flatten.1 hx
    obtain ⟨d, hd, rfl⟩ := List.getElem_of_mem hs
    have hd' := List.getElem?_eq_getElem hd
    rcases Nat.lt_trichotomy c d with hcd | rfl | hdc
    · have hbx := (ho.lt b hbs x hxs).1 (hlt hcd hc hd' b hb x hxr)
      have hxb := (ho.le x hxs b hbs).1 (hbelow b hbc)
      exact absurd hxb (not_le.2 hbx)
    · rw [hd', Option.some.injEq] at hc
      exact hc ▸ hxr
    · obtain ⟨c, rfl⟩ := Nat.exists_eq_add_one_of_ne_zero (show c ≠ 0 by omega)
      have hc' := Nat.lt_of_succ_lt (List.getElem?_eq_some_iff.1 hc).1
      obtain ⟨a, ha, hac, -⟩ := h.exists_bound ho (List.getElem?_eq_getElem hc')
      obtain ⟨a', -, had, hxa⟩ := h.exists_bound ho hd'
      have has := h.mem_of_mem (List.getElem_mem hc') ha
      have hax := (ho.lt a has x hxs).1 (habove c a rfl hac)
      have haa := h.bound_le ho had hac (Nat.le_of_lt_succ hdc)
      exact absurd ((hxa x hxr).trans haa) (not_le.2 hax)

/-- **Bounds reproduce the runs exactly if the runs are apart.** -/
theorem IsCut.reproduces_iff (h : IsCut sorted k runs) (ho : OrderedBy key sorted) :
    Reproduces (lastValues runs) runs ↔ IsApart runs := by
  refine ⟨fun hr => h.isApart_of_inBin ho fun c run hc x hx => ?_, h.reproduces ho⟩
  exact (hr c run hc x (List.mem_flatten.2 ⟨run, List.mem_of_getElem? hc, hx⟩)).1 hx

/-- Different values are always apart. -/
theorem IsCut.isApart_of_ne (h : IsCut sorted k runs) (ho : OrderedBy key sorted)
    (hne : sorted.Pairwise fun x y => key x ≠ key y) : IsApart runs := by
  have hs : sorted.Pairwise fun x y => x < y :=
    (ho.sorted.and hne).imp_of_mem fun hx hy hxy =>
      (ho.lt _ hx _ hy).2 (lt_of_le_of_ne hxy.1 hxy.2)
  rw [← h.flatten, List.pairwise_flatten] at hs
  exact hs.2

end

/-- The bounds of runs that are apart are different. -/
theorem IsApart.pairwise_lastValues {α : Type} [LT α] {runs : List (List α)} (h : IsApart runs) :
    (lastValues runs).Pairwise (· < ·) :=
  List.Pairwise.filterMap List.getLast?
    (fun _ _ hlt _ hx _ hy => hlt _ (List.mem_of_getLast? hx) _ (List.mem_of_getLast? hy)) h

/-! ### Bounds of classes -/

theorem upperBounds_of_classes? {α : Type} [Scalar α] {values : List α} {k : ℕ}
    {runs : List (List α)} (h : classes? values k = some (.ok runs)) :
    upperBounds values k = .ok (lastValues runs) := by
  rw [upperBounds, classes, h]
  rfl

/-- Classes of values with their bounds, one for each class and in ascending order. -/
structure HaveBounds {α : Type} [Scalar α] [LT α] [LE α] (values : List α) (k : ℕ)
    (runs : List (List α)) (bounds : List α) : Prop where
  classes_eq : classes? values k = some (.ok runs)
  cut : IsCut (sortValues values) k runs
  bounds_eq : upperBounds values k = .ok bounds
  length : bounds.length = k
  ascending : bounds.Pairwise (· ≤ ·)

theorem haveBounds {α β : Type} [Scalar α] [LT α] [LE α] [LinearOrder β] {key : α → β}
    {values : List α} {k : ℕ} {runs : List (List α)} (h : classes? values k = some (.ok runs))
    (ho : OrderedBy key (sortValues values)) : HaveBounds values k runs (lastValues runs) where
  classes_eq := h
  cut := isCut_of_classes? h
  bounds_eq := upperBounds_of_classes? h
  length := (length_lastValues (isCut_of_classes? h).nonempty).trans (isCut_of_classes? h).length
  ascending := (isCut_of_classes? h).pairwise_lastValues ho

theorem orderedBy_sortValues {values : List Float} (h : ∀ x ∈ values, x.isFinite = true) :
    OrderedBy Number.orderKey (sortValues values) := by
  have hsorted : ∀ x ∈ sortValues values, x.isFinite = true := fun x hx =>
    h x (mem_sortValues.1 hx)
  exact ⟨fun x hx y hy => Number.lt_iff_orderKey (hsorted x hx) (hsorted y hy),
    fun x hx y hy => Number.le_iff_orderKey (hsorted x hx) (hsorted y hy),
    (pairwise_sortValues values).imp_of_mem fun hx hy hle =>
      Number.orderKey_le_of_rank_le (hsorted _ hx) (hsorted _ hy) hle⟩

theorem orderedBy_sortValues_rat (values : List ℚ) : OrderedBy id (sortValues values) :=
  ⟨fun _ _ _ _ => Iff.rfl, fun _ _ _ _ => Iff.rfl, pairwise_sortValues_rat values⟩

/-- Different values stay different in ascending order. -/
theorem pairwise_sortValues_ne {values : List Float} (h : ∀ x ∈ values, x.isFinite = true)
    (hne : values.Pairwise fun x y => (x == y) = false) :
    (sortValues values).Pairwise fun x y => Number.orderKey x ≠ Number.orderKey y := by
  have hkeys : values.Pairwise fun x y => Number.orderKey x ≠ Number.orderKey y :=
    hne.imp_of_mem fun hx hy hxy heq =>
      Bool.false_ne_true (hxy.symm.trans ((Number.beq_iff_orderKey (h _ hx) (h _ hy)).2 heq))
  exact ((List.mergeSort_perm values _).pairwise_iff fun hxy => hxy.symm).2 hkeys

/-! ### Bounds of vanishing deviations -/

theorem lastValues_singledOut {α : Type} {xs : List α} {c : ℕ} (h : c < xs.length) :
    lastValues (singledOut xs c) = xs.drop (xs.length - (c + 1)) := by
  have hsingles (ys : List α) : lastValues (ys.map ([·])) = ys := by
    rw [lastValues, List.filterMap_map]
    exact List.filterMap_some
  have hlast : xs.length - c - 1 < xs.length := by omega
  have hfirst : (xs.take (xs.length - c)).getLast? = some xs[xs.length - c - 1] := by
    rw [List.getLast?_take, if_neg (by omega), List.getElem?_eq_getElem hlast, Option.some_or]
  rw [singledOut, lastValues, List.filterMap_cons, hfirst, ← lastValues, hsingles,
    show xs.length - (c + 1) = xs.length - c - 1 by omega, List.drop_eq_getElem_cons hlast,
    Nat.sub_add_cancel (by omega)]

/-- **If the deviations vanish, the upper bounds are the greatest values**, whether or not some of
them are equal. -/
theorem upperBounds_of_vanish {α : Type} [Scalar α] {values sorted : List α} {k : ℕ}
    {runs : List (List α)} (h : classes? values k = some (.ok runs))
    (hsorted : sortValues values = sorted) {sums : Sums α} {zero : α}
    (hsums : Sums.ofSorted? sorted = some sums)
    (hzero : Scalar.atLeast (Scalar.add zero zero) zero = true)
    (hs : ∀ i < sorted.length, ∀ j ≤ i, sums.spread? j i = some zero) :
    upperBounds values k = .ok (sorted.drop (sorted.length - k)) := by
  subst hsorted
  have hcut := isCut_of_classes? h
  have hle := length_le_length_flatten hcut.nonempty
  rw [hcut.length, hcut.flatten] at hle
  have hk := (of_classes? h).1
  rw [upperBounds_of_classes? h, classes?_of_vanish h hsums hzero hs,
    lastValues_singledOut (by omega), Nat.sub_add_cancel hk]

/-! ### Ascending bounds -/

/-- **Without rounding, the upper bounds of classes are different and reproduce them.** -/
theorem exists_haveBounds_rat {values : List ℚ} {k : ℕ} (hne : values ≠ []) (hk : 1 ≤ k)
    (hd : k ≤ values.toFinset.card) :
    ∃ runs bounds, HaveBounds values k runs bounds ∧ bounds.Pairwise (· < ·) ∧
      Reproduces bounds runs := by
  obtain ⟨runs, hruns, hapart⟩ := exists_isApart_classes hne hk hd
  have ho := orderedBy_sortValues_rat values
  have h := haveBounds hruns ho
  exact ⟨runs, lastValues runs, h, hapart.pairwise_lastValues, h.cut.reproduces ho hapart⟩

/-- **The upper bounds of classes ascend.** With rounding they are different and reproduce the
classes exactly if no equal values are divided among two classes, and always if the values are
different. -/
theorem upperBounds_ascend {values : List Float} {k : ℕ}
    (hfinite : ∀ x ∈ values, x.isFinite = true) (hk : 1 ≤ k) (hd : k ≤ values.eraseDups.length) :
    ∃ runs bounds, HaveBounds values k runs bounds ∧
      (bounds.Pairwise (· < ·) ∧ Reproduces bounds runs ↔ IsApart runs) ∧
      ((values.Pairwise fun x y => (x == y) = false) → IsApart runs) := by
  obtain ⟨runs, hruns⟩ := (exists_classes_iff hk).2 ⟨hfinite, hd⟩
  have ho := orderedBy_sortValues hfinite
  have h := haveBounds hruns ho
  refine ⟨runs, lastValues runs, h, ?_, fun hne => ?_⟩
  · exact ⟨fun hb => (h.cut.reproduces_iff ho).1 hb.2,
      fun hr => ⟨hr.pairwise_lastValues, h.cut.reproduces ho hr⟩⟩
  · exact h.cut.isApart_of_ne ho (pairwise_sortValues_ne hfinite hne)

theorem upperBounds_ascend_of_different :
    ∃ bounds, upperBounds [2.5, -1, (0.5 : Float)] 2 = .ok bounds ∧ bounds.Pairwise (· < ·) := by
  obtain ⟨runs, bounds, h, hiff, hapart⟩ := upperBounds_ascend
    (show ∀ x ∈ [2.5, -1, (0.5 : Float)], x.isFinite = true by decide +kernel)
    (show 1 ≤ 2 by decide) (by decide +kernel)
  exact ⟨bounds, h.bounds_eq, (hiff.2 (hapart (by decide +kernel))).1⟩

/-- The squares of small values are rounded to zero, and equal ones are divided. -/
theorem upperBounds_repeat :
    (∀ x ∈ [0, 1e-200, (1e-200 : Float)], x.isFinite = true) ∧
    2 ≤ [0, 1e-200, (1e-200 : Float)].eraseDups.length ∧
    upperBounds [0, 1e-200, (1e-200 : Float)] 2 = .ok [1e-200, 1e-200] ∧
    ¬[1e-200, (1e-200 : Float)].Pairwise (· < ·) := by
  have hfinite : ∀ x ∈ [0, 1e-200, (1e-200 : Float)], x.isFinite = true := by decide +kernel
  have hmany : 2 ≤ [0, 1e-200, (1e-200 : Float)].eraseDups.length := by decide +kernel
  have hsorted : sortValues [0, 1e-200, (1e-200 : Float)] = [0, 1e-200, 1e-200] :=
    List.mergeSort_of_pairwise (by decide +kernel)
  obtain ⟨runs, hruns⟩ := (exists_classes_iff (by decide)).2 ⟨hfinite, hmany⟩
  have hvanish : ∀ i < 3, ∀ j ≤ i,
      (Sums.ofShifted 1e-200 [0, 1e-200, (1e-200 : Float)]).spread? j i = some 0 := by
    decide +kernel
  have hbounds := upperBounds_of_vanish hruns hsorted rfl (by decide +kernel) hvanish
  exact ⟨hfinite, hmany, hbounds, by decide +kernel⟩

end Choropleth
