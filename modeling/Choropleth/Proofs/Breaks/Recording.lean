import Choropleth.Proofs.Keyed

/-!
# Tables of breaks as sets of records

The table to which pairs of an area type and a category have been recorded does not depend on the
order of the pairs, or on how often they were recorded.

* `Breaks.InOrder`: all keys are in order;
* `Breaks.numbers?`: the numbers of a category under a key;
* `Breaks.recordEach`: records classes one after another;
* `Breaks.recordAll`: records the classes of several pairs;
* `Breaks.recordAll_congr`: equal sets of pairs give equal tables.
-/

namespace Choropleth

/-- The classes of a metric set: the upper bounds, the least and the greatest value. -/
structure ClassBounds where
  bounds : List Float
  least : Float
  greatest : Float

namespace Breaks

/-- The keys of categories are in order, and so are those of each category. -/
def InOrder (b : Breaks) : Prop := Keyed.InOrder b ∧ ∀ p ∈ b, Keyed.InOrder p.2

theorem inOrder_nil : InOrder [] := ⟨Keyed.inOrder_nil, by simp⟩

/-- The numbers of a category under a key. -/
def numbers? (b : Breaks) (category key : String) : Option (List Float) :=
  (b.get? category).bind fun entry => entry.get? key

/-- Tables in order are equal if they have the same categories with the same numbers. -/
theorem InOrder.ext {b c : Breaks} (hb : b.InOrder) (hc : c.InOrder)
    (hsome : ∀ category, (b.get? category).isSome = (c.get? category).isSome)
    (hnumbers : ∀ category key, b.numbers? category key = c.numbers? category key) : b = c := by
  refine hb.1.ext hc.1 fun category => ?_
  have hs := hsome category
  have hn := hnumbers category
  cases h : b.get? category with
  | none =>
    rw [h, Option.isSome_none] at hs
    exact (Option.isSome_eq_false_iff.1 hs.symm |> Option.isNone_iff_eq_none.1).symm
  | some entry =>
    cases h' : c.get? category with
    | none => simp [h, h'] at hs
    | some entry' =>
      simp only [numbers?, h, h', Option.bind_some] at hn
      have he := hb.2 _ (Keyed.mem_of_get? h)
      have he' := hc.2 _ (Keyed.mem_of_get? h')
      exact congrArg some (he.ext he' hn)

/-! ### One record -/

theorem name_ne_extremesKey (t u : AreaType) : t.name ≠ extremesKey u := by
  cases t <;> cases u <;> decide

theorem extremesKey_injective {t u : AreaType} (h : extremesKey t = extremesKey u) : t = u := by
  refine AreaType.name_injective ?_
  rw [extremesKey, extremesKey, ← String.toList_inj, String.toList_append,
    String.toList_append] at h
  exact String.toList_inj.1 (List.append_cancel_right h)

/-- What a record says under a key. -/
def field (t : AreaType) (x : ClassBounds) (key : String) : Option (List Float) :=
  if key = extremesKey t then some [x.least, x.greatest]
  else if key = t.name then some x.bounds else none

theorem isSome_field_iff {t : AreaType} {x : ClassBounds} {key : String} :
    (field t x key).isSome = true ↔ key = t.name ∨ key = extremesKey t := by
  by_cases he : key = extremesKey t
  · simp [field, he]
  · by_cases hn : key = t.name <;> simp [field, he, hn, name_ne_extremesKey]

theorem field_name (t : AreaType) (x : ClassBounds) : field t x t.name = some x.bounds := by
  rw [field, if_neg (name_ne_extremesKey t t), if_pos rfl]

theorem field_extremesKey (t : AreaType) (x : ClassBounds) :
    field t x (extremesKey t) = some [x.least, x.greatest] := if_pos rfl

/-- A key belongs to one area type. -/
theorem eq_of_field_ne_none {t u : AreaType} {x y : ClassBounds} {key : String}
    (ht : field t x key ≠ none) (hu : field u y key ≠ none) : t = u := by
  rw [Option.ne_none_iff_isSome, isSome_field_iff] at ht hu
  rcases ht with h | h <;> rcases hu with h' | h'
  · exact AreaType.name_injective (h.symm.trans h')
  · exact absurd (h.symm.trans h') (name_ne_extremesKey t u)
  · exact absurd (h'.symm.trans h) (name_ne_extremesKey u t)
  · exact extremesKey_injective (h.symm.trans h')

/-- Adds classes to a table. -/
def recordBounds (b : Breaks) (p : AreaType × String) (x : ClassBounds) : Breaks :=
  b.record p.1 p.2 x.bounds x.least x.greatest

theorem isSome_get?_recordBounds (b : Breaks) (p : AreaType × String) (x : ClassBounds)
    (category : String) : ((b.recordBounds p x).get? category).isSome =
      (decide (p.2 = category) || (b.get? category).isSome) := by
  rw [recordBounds, record, Keyed.get?_putSorted]
  by_cases h : p.2 = category <;> simp [h]

/-- A record changes the numbers under its own keys. -/
theorem numbers?_recordBounds (b : Breaks) (p : AreaType × String) (x : ClassBounds)
    (category key : String) : (b.recordBounds p x).numbers? category key =
      if p.2 = category then (field p.1 x key).or (b.numbers? category key)
      else b.numbers? category key := by
  rw [numbers?, recordBounds, record, Keyed.get?_putSorted]
  by_cases hc : p.2 = category
  · subst hc
    simp only [if_true, Option.bind_some, Keyed.get?_putSorted]
    by_cases hk : key = extremesKey p.1
    · simp [field, hk]
    · by_cases hn : key = p.1.name
      · simp [field, hn, name_ne_extremesKey, Ne.symm (name_ne_extremesKey p.1 p.1)]
      · simp only [field, hk, hn, Ne.symm hk, Ne.symm hn, if_false, Option.none_or, numbers?]
        cases b.get? p.2 <;> simp
  · simp [hc, numbers?]

theorem InOrder.recordBounds {b : Breaks} (h : b.InOrder) (p : AreaType × String)
    (x : ClassBounds) : (b.recordBounds p x).InOrder := by
  have hentry : ((b.get? p.2).getD []).InOrder := by
    cases hg : b.get? p.2 with
    | none => exact Keyed.inOrder_nil
    | some entry => exact h.2 _ (Keyed.mem_of_get? hg)
  refine ⟨h.1.putSorted _ _, fun q hq => ?_⟩
  rcases Keyed.mem_putSorted hq with rfl | hq
  · exact (hentry.putSorted _ _).putSorted _ _
  · exact h.2 q hq

/-! ### Several records -/

/-- Adds several classes to a table, one after another. -/
def recordEach : List ((AreaType × String) × ClassBounds) → Breaks → Breaks
  | [], b => b
  | x :: xs, b => recordEach xs (b.recordBounds x.1 x.2)

theorem recordEach_append (xs ys : List ((AreaType × String) × ClassBounds)) (b : Breaks) :
    recordEach (xs ++ ys) b = recordEach ys (recordEach xs b) := by
  induction xs generalizing b with
  | nil => rfl
  | cons x xs ih => exact ih _

theorem InOrder.recordEach {b : Breaks} (h : b.InOrder)
    (xs : List ((AreaType × String) × ClassBounds)) : (recordEach xs b).InOrder := by
  induction xs generalizing b with
  | nil => exact h
  | cons x xs ih => exact ih (h.recordBounds x.1 x.2)

theorem isSome_get?_recordEach (xs : List ((AreaType × String) × ClassBounds)) (b : Breaks)
    (category : String) : ((recordEach xs b).get? category).isSome =
      (xs.any (fun x => x.1.2 = category) || (b.get? category).isSome) := by
  induction xs generalizing b with
  | nil => simp [Breaks.recordEach]
  | cons x xs ih =>
    rw [Breaks.recordEach, ih, isSome_get?_recordBounds, List.any_cons]
    cases decide (x.1.2 = category) <;> simp

theorem isSome_numbers?_recordEach (xs : List ((AreaType × String) × ClassBounds)) (b : Breaks)
    (category key : String) : ((recordEach xs b).numbers? category key).isSome = true ↔
      (∃ x ∈ xs, x.1.2 = category ∧ (key = x.1.1.name ∨ key = extremesKey x.1.1)) ∨
        (b.numbers? category key).isSome = true := by
  induction xs generalizing b with
  | nil => simp [Breaks.recordEach]
  | cons x xs ih =>
    rw [Breaks.recordEach, ih, numbers?_recordBounds, List.exists_mem_cons_iff]
    by_cases hc : x.1.2 = category
    · rw [if_pos hc, Option.isSome_or, Bool.or_eq_true, isSome_field_iff, and_iff_right hc,
        or_left_comm]
      exact (or_assoc).symm
    · simp only [hc, if_false, false_and, false_or]

/-- Records that do not have a key leave its numbers alone. -/
theorem numbers?_recordEach_of_none {xs : List ((AreaType × String) × ClassBounds)}
    {category key : String} (h : ∀ x ∈ xs, x.1.2 = category → field x.1.1 x.2 key = none)
    (b : Breaks) : (recordEach xs b).numbers? category key = b.numbers? category key := by
  induction xs generalizing b with
  | nil => rfl
  | cons x xs ih =>
    rw [Breaks.recordEach, ih fun y hy => h y (List.mem_cons_of_mem x hy), numbers?_recordBounds]
    by_cases hc : x.1.2 = category
    · simp [hc, h x List.mem_cons_self hc]
    · simp [hc]

/-- The numbers under a key are those of the last record of the pair that has the key. -/
theorem numbers?_recordEach_of_last {before after : List ((AreaType × String) × ClassBounds)}
    {x : (AreaType × String) × ClassBounds} (hlast : ∀ y ∈ after, y.1 ≠ x.1) {key : String}
    {ns : List Float} (hx : field x.1.1 x.2 key = some ns) (b : Breaks) :
    (recordEach (before ++ x :: after) b).numbers? x.1.2 key = some ns := by
  have hnone : ∀ y ∈ after, y.1.2 = x.1.2 → field y.1.1 y.2 key = none := by
    intro y hy hc
    by_contra hne
    have ht := eq_of_field_ne_none hne (by rw [hx]; simp : field x.1.1 x.2 key ≠ none)
    exact hlast y hy (Prod.ext ht hc)
  rw [recordEach_append, Breaks.recordEach, numbers?_recordEach_of_none hnone,
    numbers?_recordBounds, if_pos rfl, hx, Option.some_or]

/-- Adds the classes of several pairs to a table. -/
def recordAll (f : AreaType × String → ClassBounds) : List (AreaType × String) → Breaks → Breaks
  | [], b => b
  | p :: ps, b => recordAll f ps (b.recordBounds p (f p))

variable {f : AreaType × String → ClassBounds}

theorem recordAll_eq (ps : List (AreaType × String)) (b : Breaks) :
    recordAll f ps b = recordEach (ps.map fun p => (p, f p)) b := by
  induction ps generalizing b with
  | nil => rfl
  | cons p ps ih => exact ih _

theorem InOrder.recordAll {b : Breaks} (h : b.InOrder) (ps : List (AreaType × String)) :
    (recordAll f ps b).InOrder :=
  recordAll_eq (f := f) ps b ▸ h.recordEach _

theorem isSome_get?_recordAll (ps : List (AreaType × String)) (b : Breaks) (category : String) :
    ((recordAll f ps b).get? category).isSome =
      (ps.any (fun p => p.2 = category) || (b.get? category).isSome) := by
  rw [recordAll_eq, isSome_get?_recordEach, List.any_map]
  rfl

/-- Pairs that do not have a key leave its numbers alone. -/
theorem numbers?_recordAll_of_none {ps : List (AreaType × String)} {category key : String}
    (h : ∀ p ∈ ps, p.2 = category → field p.1 (f p) key = none) (b : Breaks) :
    (recordAll f ps b).numbers? category key = b.numbers? category key := by
  rw [recordAll_eq]
  refine numbers?_recordEach_of_none (fun x hx => ?_) b
  obtain ⟨p, hp, rfl⟩ := List.mem_map.1 hx
  exact h p hp

/-- The numbers under a key are those of the pair that has the key. -/
theorem numbers?_recordAll_of_mem {ps : List (AreaType × String)} {p : AreaType × String}
    (hp : p ∈ ps) {key : String} {xs : List Float} (hx : field p.1 (f p) key = some xs)
    (b : Breaks) : (recordAll f ps b).numbers? p.2 key = some xs := by
  obtain ⟨after, before, hps, hnot⟩ := List.eq_append_cons_of_mem (List.mem_reverse.2 hp)
  obtain rfl : ps = before.reverse ++ p :: after.reverse := by
    rw [← List.reverse_reverse ps, hps]
    simp
  rw [recordAll_eq, List.map_append, List.map_cons]
  refine numbers?_recordEach_of_last (fun y hy => ?_) hx b
  obtain ⟨q, hq, rfl⟩ := List.mem_map.1 hy
  rintro rfl
  exact hnot (List.mem_reverse.1 hq)

/-- **The table of several pairs depends on which pairs they are only.** -/
theorem recordAll_congr {ps qs : List (AreaType × String)} (h : ∀ p, p ∈ ps ↔ p ∈ qs) :
    recordAll f ps [] = recordAll f qs [] := by
  refine (inOrder_nil.recordAll ps).ext (inOrder_nil.recordAll qs) (fun category => ?_)
    fun category key => ?_
  · have hany : ps.any (fun p => p.2 = category) = qs.any fun p => p.2 = category := by
      rw [Bool.eq_iff_iff]
      simp only [List.any_eq_true, h]
    rw [isSome_get?_recordAll, isSome_get?_recordAll, hany]
  · by_cases hex : ∃ p ∈ ps, p.2 = category ∧ field p.1 (f p) key ≠ none
    · obtain ⟨p, hp, rfl, hne⟩ := hex
      obtain ⟨xs, hx⟩ := Option.ne_none_iff_exists'.1 hne
      rw [numbers?_recordAll_of_mem hp hx, numbers?_recordAll_of_mem ((h p).1 hp) hx]
    · have hnone : ∀ p ∈ ps, p.2 = category → field p.1 (f p) key = none := by
        intro p hp hc
        by_contra hne
        exact hex ⟨p, hp, hc, hne⟩
      rw [numbers?_recordAll_of_none hnone,
        numbers?_recordAll_of_none fun p hp => hnone p ((h p).2 hp)]

end Breaks
end Choropleth
