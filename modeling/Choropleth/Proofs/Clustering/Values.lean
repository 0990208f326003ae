import Mathlib.Data.Finset.Card
import Mathlib.Data.List.Sort
import Mathlib.Data.List.Dedup
import Choropleth.Proofs.Clustering.Cuts
import Choropleth.Proofs.Number.Finite

/-!
# What classes depend on

Classes are made of the values in ascending order, so that the order in which values are given does
not matter. Finite values have classes if there are as many different values as classes.

* `classes?_perm`, `upperBounds_perm`: values in another order have the same classes;
* `distinctCount_sortValues`: the different values are counted;
* `exists_extremes?`: the least and the greatest value;
* `exists_classes_iff`: when there are classes.
-/

namespace Choropleth

open Number

/-! ### The order of the values -/

theorem precedes_iff {x y : Float} : Scalar.precedes x y = true ↔ rank x ≤ rank y :=
  decide_eq_true_iff

/-- Sorted values ascend, whatever key puts them in order. -/
theorem pairwise_sortValues_of_key {α β : Type} [Scalar α] [LinearOrder β] {key : α → β}
    (h : ∀ x y : α, Scalar.precedes x y = true ↔ key x ≤ key y) (values : List α) :
    (sortValues values).Pairwise fun x y => key x ≤ key y := by
  have htrans (x y z : α) (hxy : Scalar.precedes x y = true)
      (hyz : Scalar.precedes y z = true) : Scalar.precedes x z = true :=
    (h x z).2 (((h x y).1 hxy).trans ((h y z).1 hyz))
  have htotal (x y : α) : (Scalar.precedes x y || Scalar.precedes y x) = true := by
    rw [Bool.or_eq_true, h, h]
    exact le_total _ _
  exact (List.pairwise_mergeSort htrans htotal values).imp (h _ _).1

theorem pairwise_sortValues (values : List Float) :
    (sortValues values).Pairwise fun x y => rank x ≤ rank y :=
  pairwise_sortValues_of_key (fun _ _ => precedes_iff) values

theorem sortValues_perm {xs ys : List Float} (h : xs.Perm ys) : sortValues xs = sortValues ys := by
  have hperm : (sortValues xs).Perm (sortValues ys) :=
    (List.mergeSort_perm xs _).trans (h.trans (List.mergeSort_perm ys _).symm)
  refine hperm.eq_of_pairwise (fun x y _ _ hxy hyx => rank_injective (le_antisymm hxy hyx))
    (pairwise_sortValues xs) (pairwise_sortValues ys)

/-- Values in another order have the same classes. -/
theorem classes?_perm {xs ys : List Float} (h : xs.Perm ys) (k : ℕ) :
    classes? xs k = classes? ys k := by
  have hempty : xs.isEmpty = ys.isEmpty := by
    rw [Bool.eq_iff_iff, List.isEmpty_iff, List.isEmpty_iff]
    exact ⟨fun hx => (hx ▸ h).nil_eq.symm, fun hy => (hy ▸ h).eq_nil⟩
  have hany : (xs.any fun x => !Scalar.isFinite x) = ys.any fun x => !Scalar.isFinite x := h.any_eq
  simp only [classes?, hempty, hany, sortValues_perm h]

/-- **Values in another order have the same upper bounds.** -/
theorem upperBounds_perm {xs ys : List Float} (h : xs.Perm ys) (k : ℕ) :
    upperBounds xs k = upperBounds ys k := by
  rw [upperBounds, upperBounds, classes, classes, classes?_perm h]

/-! ### Different values -/

theorem length_eraseDups {values : List Float} (h : ∀ x ∈ values, x.isFinite = true) :
    values.eraseDups.length = (values.map orderKey).toFinset.card := by
  induction hn : values.length using Nat.strong_induction_on generalizing values with
  | _ n ih =>
  cases values with
  | nil => rfl
  | cons x r =>
    obtain ⟨hx, hr⟩ := List.forall_mem_cons.1 h
    have hmem {y : Float} : y ∈ r.filter (fun y => !y == x) ↔ y ∈ r ∧ orderKey y ≠ orderKey x := by
      rw [List.mem_filter, Bool.not_eq_true', ← Bool.not_eq_true]
      exact and_congr_right fun hy => not_congr (beq_iff_orderKey (hr y hy) hx)
    have hlt : (r.filter fun y => !y == x).length < n := by
      rw [← hn, List.length_cons]
      exact Nat.lt_succ_of_le (List.length_filter_le _ _)
    have hkeys : ((x :: r).map orderKey).toFinset =
        insert (orderKey x) ((r.filter fun y => !y == x).map orderKey).toFinset := by
      ext key
      simp only [List.map_cons, List.toFinset_cons, Finset.mem_insert, List.mem_toFinset,
        List.mem_map, hmem]
      constructor
      · rintro (rfl | ⟨y, hy, rfl⟩)
        · exact .inl rfl
        · exact or_iff_not_imp_left.2 fun hne => ⟨y, ⟨hy, hne⟩, rfl⟩
      · rintro (rfl | ⟨y, ⟨hy, -⟩, rfl⟩)
        · exact .inl rfl
        · exact .inr ⟨y, hy, rfl⟩
    have hnot : orderKey x ∉ ((r.filter fun y => !y == x).map orderKey).toFinset := by
      simp only [List.mem_toFinset, List.mem_map, hmem, not_exists, not_and]
      exact fun y hy => hy.2
    rw [List.eraseDups_cons, List.length_cons, hkeys, Finset.card_insert_of_notMem hnot,
      ih _ hlt (fun y hy => hr y (hmem.1 hy).1) rfl]

/-- The different values are counted, whatever key tells them apart. -/
theorem distinctCount_eq_card {α β : Type} [Scalar α] [LinearOrder β] (key : α → β)
    {values : List α} (hless : ∀ x ∈ values, ∀ y ∈ values,
      Scalar.less x y = true ↔ key x < key y)
    (hs : values.Pairwise fun x y => key x ≤ key y) :
    distinctCount values = (values.map key).toFinset.card := by
  induction values using distinctCount.induct with
  | case1 => rfl
  | case2 x => rfl
  | case3 x y r ih =>
    obtain ⟨hxy, hyr⟩ := List.pairwise_cons.1 hs
    have hlt := hless x List.mem_cons_self y (List.mem_cons_of_mem x List.mem_cons_self)
    have hrest : ∀ z ∈ y :: r, ∀ w ∈ y :: r, Scalar.less z w = true ↔ key z < key w :=
      fun z hz w hw => hless z (List.mem_cons_of_mem x hz) w (List.mem_cons_of_mem x hw)
    have hkeys : ((x :: y :: r).map key).toFinset =
        insert (key x) ((y :: r).map key).toFinset := by
      rw [List.map_cons, List.toFinset_cons]
    rw [distinctCount, ih hrest hyr, hkeys]
    by_cases hkey : key x < key y
    · -- all later values are greater
      have hnot : key x ∉ ((y :: r).map key).toFinset := by
        rw [List.mem_toFinset, List.mem_map]
        rintro ⟨z, hz, hzx⟩
        rcases List.mem_cons.1 hz with rfl | hz
        · exact hkey.ne' hzx
        · exact (hkey.trans_le ((List.pairwise_cons.1 hyr).1 z hz)).ne' hzx
      rw [if_pos (hlt.2 hkey), Finset.card_insert_of_notMem hnot, Nat.add_comm]
    · have heq : key x = key y := le_antisymm (hxy y List.mem_cons_self) (not_lt.1 hkey)
      rw [if_neg (mt hlt.1 hkey), Nat.zero_add, Finset.insert_eq_of_mem]
      rw [heq]
      exact List.mem_toFinset.2 List.mem_cons_self

theorem mem_sortValues {α : Type} [Scalar α] {values : List α} {x : α} :
    x ∈ sortValues values ↔ x ∈ values :=
  List.mem_mergeSort

/-- **The different values are counted**, zeros of either sign as one. -/
theorem distinctCount_sortValues {values : List Float} (h : ∀ x ∈ values, x.isFinite = true) :
    distinctCount (sortValues values) = values.eraseDups.length := by
  have hsorted : ∀ x ∈ sortValues values, x.isFinite = true := fun x hx =>
    h x (mem_sortValues.1 hx)
  have hkeys : (sortValues values).Pairwise fun x y => orderKey x ≤ orderKey y :=
    (pairwise_sortValues values).imp_of_mem fun hx hy hle =>
      orderKey_le_of_rank_le (hsorted _ hx) (hsorted _ hy) hle
  have hless : ∀ x ∈ sortValues values, ∀ y ∈ sortValues values,
      Scalar.less x y = true ↔ orderKey x < orderKey y := fun x hx y hy =>
    decide_eq_true_iff.trans (lt_iff_orderKey (hsorted x hx) (hsorted y hy))
  rw [distinctCount_eq_card orderKey hless hkeys, length_eraseDups h]
  congr 1
  ext key
  simp [mem_sortValues]

/-- There are classes if all values are finite and enough of them are different. -/
theorem exists_classes_iff {values : List Float} {k : ℕ} (hk : 0 < k) :
    (∃ cs, classes? values k = some (.ok cs)) ↔
      (∀ x ∈ values, x.isFinite = true) ∧ k ≤ values.eraseDups.length := by
  constructor
  · rintro ⟨cs, h⟩
    obtain ⟨-, hall, hmany, -⟩ := of_classes? h
    exact ⟨hall, distinctCount_sortValues hall ▸ hmany⟩
  · rintro ⟨hall, hmany⟩
    have hne : values ≠ [] := by
      rintro rfl
      exact absurd hmany (Nat.not_le.2 hk)
    exact exists_classes?_ok hne hk hall ((distinctCount_sortValues hall).symm ▸ hmany)

/-! ### The least and the greatest value -/

/-- The least and the greatest of some values. -/
structure AreExtremes (least greatest : Float) (values : List Float) : Prop where
  least_mem : least ∈ values
  greatest_mem : greatest ∈ values
  least_le : ∀ x ∈ values, least ≤ x
  le_greatest : ∀ x ∈ values, x ≤ greatest

theorem AreExtremes.perm {least greatest : Float} {xs ys : List Float}
    (he : AreExtremes least greatest xs) (h : xs.Perm ys) : AreExtremes least greatest ys :=
  ⟨h.mem_iff.1 he.least_mem, h.mem_iff.1 he.greatest_mem,
    fun x hx => he.least_le x (h.mem_iff.2 hx), fun x hx => he.le_greatest x (h.mem_iff.2 hx)⟩

/-- The extremes of finite values are given up to the signs of zeros. -/
theorem AreExtremes.beq {least greatest least' greatest' : Float} {values : List Float}
    (h : ∀ x ∈ values, x.isFinite = true) (he : AreExtremes least greatest values)
    (he' : AreExtremes least' greatest' values) :
    (least == least') = true ∧ (greatest == greatest') = true := by
  have hle {x y : Float} (hx : x ∈ values) (hy : y ∈ values) (hxy : x ≤ y) :
      orderKey x ≤ orderKey y := (le_iff_orderKey (h x hx) (h y hy)).1 hxy
  constructor
  · refine (beq_iff_orderKey (h _ he.least_mem) (h _ he'.least_mem)).2 (le_antisymm ?_ ?_)
    · exact hle he.least_mem he'.least_mem (he.least_le _ he'.least_mem)
    · exact hle he'.least_mem he.least_mem (he'.least_le _ he.least_mem)
  · refine (beq_iff_orderKey (h _ he.greatest_mem) (h _ he'.greatest_mem)).2 (le_antisymm ?_ ?_)
    · exact hle he.greatest_mem he'.greatest_mem (he'.le_greatest _ he.greatest_mem)
    · exact hle he'.greatest_mem he.greatest_mem (he.le_greatest _ he'.greatest_mem)

theorem AreExtremes.concat {least greatest v : Float} {values : List Float}
    (h : ∀ x ∈ values ++ [v], x.isFinite = true) (he : AreExtremes least greatest values) :
    AreExtremes (if Scalar.less v least then v else least)
      (if Scalar.less greatest v then v else greatest) (values ++ [v]) := by
  have hfinite : ∀ x ∈ values, x.isFinite = true := fun x hx => h x (List.mem_append_left _ hx)
  have hv : v.isFinite = true := h v (by simp)
  have hl := hfinite _ he.least_mem
  have hg := hfinite _ he.greatest_mem
  have hsplit {p : Float → Prop} : (∀ x ∈ values ++ [v], p x) ↔ (∀ x ∈ values, p x) ∧ p v := by
    simp [or_imp, forall_and]
  have hlessl : Scalar.less v least = true ↔ v < least := decide_eq_true_iff
  have hlessg : Scalar.less greatest v = true ↔ greatest < v := decide_eq_true_iff
  simp only [hlessl, hlessg, lt_iff_orderKey hv hl, lt_iff_orderKey hg hv]
  refine ⟨?_, ?_, hsplit.2 ?_, hsplit.2 ?_⟩
  · split
    · simp
    · exact List.mem_append_left _ he.least_mem
  · split
    · simp
    · exact List.mem_append_left _ he.greatest_mem
  · split
    · next hlt =>
      refine ⟨fun x hx => ?_, (le_iff_orderKey hv hv).2 le_rfl⟩
      exact (le_iff_orderKey hv (hfinite x hx)).2
        (hlt.le.trans ((le_iff_orderKey hl (hfinite x hx)).1 (he.least_le x hx)))
    · next hlt => exact ⟨he.least_le, (le_iff_orderKey hl hv).2 (not_lt.1 hlt)⟩
  · split
    · next hlt =>
      refine ⟨fun x hx => ?_, (le_iff_orderKey hv hv).2 le_rfl⟩
      exact (le_iff_orderKey (hfinite x hx) hv).2
        (((le_iff_orderKey (hfinite x hx) hg).1 (he.le_greatest x hx)).trans hlt.le)
    · next hlt => exact ⟨he.le_greatest, (le_iff_orderKey hv hg).2 (not_lt.1 hlt)⟩

theorem exists_foldl_extremes {seen rest : List Float} (h : ∀ x ∈ seen ++ rest, x.isFinite = true)
    {least greatest : Float} (he : AreExtremes least greatest seen) :
    ∃ lo hi, rest.foldl (fun (lo, hi) v => (if Scalar.less v lo then v else lo,
      if Scalar.less hi v then v else hi)) (least, greatest) = (lo, hi) ∧
        AreExtremes lo hi (seen ++ rest) := by
  induction rest generalizing seen least greatest with
  | nil => exact ⟨least, greatest, rfl, by rwa [List.append_nil]⟩
  | cons v rest ih =>
    rw [List.append_cons] at h ⊢
    exact ih h (he.concat fun x hx => h x (List.mem_append_left _ hx))

/-- Finite values have a least and a greatest one. -/
theorem exists_extremes? {values : List Float} (hne : values ≠ [])
    (h : ∀ x ∈ values, x.isFinite = true) :
    ∃ least greatest, extremes? values = some (least, greatest) ∧
      AreExtremes least greatest values := by
  obtain ⟨x, r, rfl⟩ := List.exists_cons_of_ne_nil hne
  have hx := h x List.mem_cons_self
  have hstart : AreExtremes x x [x] := by
    have hle := (le_iff_orderKey hx hx).2 le_rfl
    exact ⟨by simp, by simp, by simpa using hle, by simpa using hle⟩
  obtain ⟨lo, hi, hfold, he⟩ := exists_foldl_extremes
    (show ∀ y ∈ [x] ++ r, y.isFinite = true from h) hstart
  exact ⟨lo, hi, congrArg some hfold, he⟩

end Choropleth
