import Choropleth.Proofs.Clustering.Ascending

/-!
# Classes partition their values

Dividing values into classes ends in one of five ways, and no place is ever looked up that is not
there, whatever comes out of the arithmetic. The classes are runs of the values in ascending order.
The first of them begins with the least value and the last one ends with the greatest, which are
also found without sorting.

* `IsCut.head?_eq`, `IsCut.getLast?_lastValues`: where the runs of a cut begin and end;
* `OrderedBy.le_of_head?`, `OrderedBy.le_of_getLast?`: the ends of ordered values;
* `IsPartition`: classes, their upper bounds and the extremes of the values;
* `ClassesEnd`: how dividing values into classes ends;
* `classes_partition`: it always ends so.
-/

namespace Choropleth

/-! ### The ends of cuts and of ordered values -/

section

variable {α : Type} {sorted : List α} {k : ℕ} {runs : List (List α)}

/-- The first run begins with the first value. -/
theorem IsCut.head?_eq (h : IsCut sorted k runs) :
    (runs.head?.bind List.head?) = sorted.head? := by
  rw [← h.flatten]
  cases runs with
  | nil => rfl
  | cons run runs =>
    obtain ⟨x, r, rfl⟩ := List.exists_cons_of_ne_nil (h.nonempty run List.mem_cons_self)
    rfl

/-- The last of the last values is that of all values. -/
theorem IsCut.getLast?_lastValues (h : IsCut sorted k runs) :
    (lastValues runs).getLast? = sorted.getLast? := by
  rw [← h.flatten]
  rcases runs.eq_nil_or_concat with rfl | ⟨before, run, rfl⟩
  · rfl
  rw [List.concat_eq_append] at h ⊢
  have hlast := List.getLast?_eq_some_getLast (h.nonempty run (by simp))
  rw [lastValues, List.filterMap_append, List.filterMap_cons, hlast, List.filterMap_nil,
    List.flatten_append, List.flatten_singleton, List.getLast?_append, List.getLast?_append, hlast]
  rfl

end

section

variable {α β : Type} [LT α] [LE α] [LinearOrder β] {key : α → β} {xs : List α}

/-- The first of ordered values is not greater than any of them. -/
theorem OrderedBy.le_of_head? (ho : OrderedBy key xs) {x : α} (hx : xs.head? = some x) :
    ∀ y ∈ xs, key x ≤ key y := by
  obtain ⟨r, rfl⟩ := List.head?_eq_some_iff.1 hx
  exact List.forall_mem_cons.2 ⟨le_rfl, (List.pairwise_cons.1 ho.sorted).1⟩

/-- The last of ordered values is not smaller than any of them. -/
theorem OrderedBy.le_of_getLast? (ho : OrderedBy key xs) {x : α} (hx : xs.getLast? = some x) :
    ∀ y ∈ xs, key y ≤ key x := by
  obtain ⟨r, rfl⟩ := List.getLast?_eq_some_iff.1 hx
  have hlast := (List.pairwise_append.1 ho.sorted).2.2
  refine List.forall_mem_append.2 ⟨fun y hy => hlast y hy x List.mem_cons_self, ?_⟩
  exact List.forall_mem_singleton.2 le_rfl

end

/-! ### Classes and the extremes of the values -/

/-- The classes are runs of the values in ascending order, which is total on numbers. The extremes
of the values, found without sorting, are where the first class begins and the last one ends. -/
structure IsPartition (values : List Float) (k : ℕ) (runs : List (List Float)) : Prop where
  length : runs.length = k
  nonempty : ∀ run ∈ runs, run ≠ []
  perm : runs.flatten.Perm values
  ascending : runs.flatten.Pairwise fun x y => Number.precedes x y = true
  extremes : ∃ least greatest bounds first last,
    extremes? values = some (least, greatest) ∧ upperBounds values k = .ok bounds ∧
    bounds.length = k ∧
    (runs.head?.bind List.head?) = some first ∧ (least == first) = true ∧
    bounds.getLast? = some last ∧ (greatest == last) = true

/-- The first and the last of finite values in ascending order are extremes of them. -/
theorem areExtremes_of_sorted {first last : Float} {values : List Float}
    (h : ∀ x ∈ values, x.isFinite = true) (hfirst : (sortValues values).head? = some first)
    (hlast : (sortValues values).getLast? = some last) : AreExtremes first last values := by
  have ho := orderedBy_sortValues h
  have hfirstmem := mem_sortValues.1 (List.mem_of_head? hfirst)
  have hlastmem := mem_sortValues.1 (List.mem_of_getLast? hlast)
  refine ⟨hfirstmem, hlastmem, fun x hx => ?_, fun x hx => ?_⟩
  · exact (Number.le_iff_orderKey (h _ hfirstmem) (h x hx)).2
      (ho.le_of_head? hfirst x (mem_sortValues.2 hx))
  · exact (Number.le_iff_orderKey (h x hx) (h _ hlastmem)).2
      (ho.le_of_getLast? hlast x (mem_sortValues.2 hx))

/-- **Classes are a partition of their values.** -/
theorem isPartition_of_classes? {values : List Float} {k : ℕ} {runs : List (List Float)}
    (h : classes? values k = some (.ok runs)) : IsPartition values k runs := by
  obtain ⟨hk, hfinite, hmany, -⟩ := of_classes? h
  have hcut := isCut_of_classes? h
  have hbounds := haveBounds h (orderedBy_sortValues hfinite)
  have hne : sortValues values ≠ [] := by
    intro hnil
    rw [hnil] at hmany
    exact absurd hmany (Nat.not_le.2 hk)
  have hvalues : values ≠ [] := fun hnil => hne (hnil ▸ List.mergeSort_nil)
  obtain ⟨least, greatest, hextremes, he⟩ := exists_extremes? hvalues hfinite
  obtain ⟨first, hfirst⟩ := Option.isSome_iff_exists.1 (List.isSome_head?.2 hne)
  obtain ⟨last, hlast⟩ := Option.isSome_iff_exists.1 (List.getLast?_isSome.2 hne)
  obtain ⟨hleast, hgreatest⟩ :=
    he.beq hfinite (areExtremes_of_sorted hfinite hfirst hlast)
  refine ⟨hcut.length, hcut.nonempty, ?_, ?_, least, greatest, lastValues runs, first, last,
    hextremes, hbounds.bounds_eq, hbounds.length, ?_, hleast, ?_, hgreatest⟩
  · rw [hcut.flatten]
    exact List.mergeSort_perm _ _
  · rw [hcut.flatten]
    exact (pairwise_sortValues values).imp precedes_iff.2
  · rw [hcut.head?_eq, hfirst]
  · rw [hcut.getLast?_lastValues, hlast]

/-! ### How dividing values ends -/

/-- How dividing values into `k` classes ends. -/
inductive ClassesEnd (values : List Float) (k : ℕ) :
    Except ClusterError (List (List Float)) → Prop
  | noValues : values = [] → ClassesEnd values k (.error .noValues)
  | noClusters : values ≠ [] → k = 0 → ClassesEnd values k (.error .noClusters)
  | notFinite : values ≠ [] → 0 < k → (∃ x ∈ values, x.isFinite = false) →
      ClassesEnd values k (.error .notFinite)
  /-- Zeros of either sign are not different. -/
  | tooMany : values ≠ [] → 0 < k → (∀ x ∈ values, x.isFinite = true) →
      values.eraseDups.length < k →
      ClassesEnd values k (.error (.tooMany k values.eraseDups.length))
  | partition {runs : List (List Float)} : values ≠ [] → 0 < k →
      (∀ x ∈ values, x.isFinite = true) → k ≤ values.eraseDups.length →
      IsPartition values k runs → ClassesEnd values k (.ok runs)

theorem any_not_isFinite_iff {values : List Float} :
    (values.any fun x => !Scalar.isFinite x) = true ↔ ∃ x ∈ values, x.isFinite = false := by
  rw [List.any_eq_true]
  refine exists_congr fun x => and_congr_right fun _ => ?_
  rw [Bool.not_eq_true']
  exact Iff.rfl

theorem classesEnd_classes? (values : List Float) (k : ℕ) :
    ∃ result, classes? values k = some result ∧ ClassesEnd values k result := by
  by_cases hne : values = []
  · subst hne
    exact ⟨_, rfl, .noValues rfl⟩
  have hempty : ¬values.isEmpty = true := fun h => hne (List.isEmpty_iff.1 h)
  by_cases hk : k = 0
  · exact ⟨_, (if_neg hempty).trans (if_pos hk), .noClusters hne hk⟩
  have hpos := Nat.pos_of_ne_zero hk
  by_cases hany : (values.any fun x => !Scalar.isFinite x) = true
  · refine ⟨_, ?_, .notFinite hne hpos (any_not_isFinite_iff.1 hany)⟩
    rw [classes?, if_neg hempty, if_neg hk, if_pos hany]
  have hfinite : ∀ x ∈ values, x.isFinite = true := by
    simpa using mt any_not_isFinite_iff.2 hany
  by_cases hmany : k ≤ values.eraseDups.length
  · obtain ⟨runs, h⟩ := (exists_classes_iff hpos).2 ⟨hfinite, hmany⟩
    exact ⟨_, h, .partition hne hpos hfinite hmany (isPartition_of_classes? h)⟩
  · have hlt := Nat.not_le.1 hmany
    refine ⟨_, ?_, .tooMany hne hpos hfinite hlt⟩
    rw [← distinctCount_sortValues hfinite] at hlt ⊢
    rw [classes?, if_neg hempty, if_neg hk, if_neg hany]
    exact if_pos hlt

/-- **Dividing values into classes always ends, with a partition or the first error that applies.**
This is so whatever the arithmetic is: no place is looked up that is not there, and no difference
falls below zero. -/
theorem classes_partition (values : List Float) (k : ℕ) :
    (∃ result, classes? values k = some result ∧ ClassesEnd values k result) ∧
    ∀ (α : Type) [Scalar α] (xs : List α), ∃ result, classes? xs k = some result ∧
      ∀ runs, result = .ok runs → IsCut (sortValues xs) k runs := by
  constructor
  · exact classesEnd_classes? values k
  · intro α _ xs
    obtain ⟨result, h⟩ := exists_classes? xs k
    refine ⟨result, h, ?_⟩
    intro runs hruns
    rw [hruns] at h
    exact isCut_of_classes? h

end Choropleth
