import Mathlib.Data.List.Nodup
import Mathlib.Data.List.Sort
import Mathlib.Data.String.Basic
import Choropleth.Breaks.Basic

/-!
# Looking up keyed values

Values that are put in their places one after another are given by what can be looked up.

* `Keyed.isSome_get?_iff`, `Keyed.get?_eq_some_iff`: what is found;
* `Keyed.perm_of_get?_eq`, `Keyed.get?_eq_of_perm`: the order of values does not matter;
* `Keyed.keys_put`, `Keyed.mem_put`: setting a value at the end;
* `Keyed.get?_putSorted`, `Keyed.pairwise_putSorted`: setting a value in its place;
* `Keyed.InOrder`: texts as keys are in strictly ascending order;
* `Keyed.get?_filter`: taking keys away;
* `Keyed.InOrder.ext`: values in order are equal if all look-ups are.
-/

namespace Choropleth
namespace Keyed

section

variable {κ α : Type} [DecidableEq κ]

/-! ### What is found -/

theorem isSome_get?_iff {key : κ} {m : Keyed κ α} :
    (m.get? key).isSome = true ↔ key ∈ m.map Prod.fst := by
  induction m with
  | nil => simp
  | cons p m ih =>
    obtain ⟨k, v⟩ := p
    by_cases hk : k = key
    · simp [get?, hk]
    · rw [get?, if_neg hk, ih, List.map_cons, List.mem_cons]
      simp [Ne.symm hk]

theorem get?_eq_none_of_not_mem {key : κ} {m : Keyed κ α} (h : key ∉ m.map Prod.fst) :
    m.get? key = none := by
  rwa [← Option.not_isSome_iff_eq_none, isSome_get?_iff]

theorem mem_of_get? {key : κ} {value : α} {m : Keyed κ α} (h : m.get? key = some value) :
    (key, value) ∈ m := by
  induction m with
  | nil => cases h
  | cons p m ih =>
    obtain ⟨k, v⟩ := p
    rw [get?] at h
    split at h
    · next hk =>
      obtain rfl := Option.some.inj h
      exact hk ▸ List.mem_cons_self
    · exact List.mem_cons_of_mem _ (ih h)

/-- Where no key comes twice, a key has the value that it comes with. -/
theorem get?_eq_some_iff {m : Keyed κ α} (h : (m.map Prod.fst).Nodup) {key : κ} {value : α} :
    m.get? key = some value ↔ (key, value) ∈ m := by
  refine ⟨mem_of_get?, fun hmem => ?_⟩
  induction m with
  | nil => cases hmem
  | cons p m ih =>
    obtain ⟨k, v⟩ := p
    obtain ⟨hk, hm⟩ := List.nodup_cons.1 h
    rw [get?]
    rcases List.mem_cons.1 hmem with heq | hmem
    · cases heq
      rw [if_pos rfl]
    · have hne : k ≠ key := by
        rintro rfl
        exact hk (List.mem_map.2 ⟨(k, value), hmem, rfl⟩)
      rw [if_neg hne, ih hm hmem]

/-- Where no key comes twice, the look-ups give the values up to their order. -/
theorem perm_of_get?_eq {m n : Keyed κ α} (hm : (m.map Prod.fst).Nodup)
    (hn : (n.map Prod.fst).Nodup) (h : ∀ key, m.get? key = n.get? key) : m.Perm n := by
  refine (List.perm_ext_iff_of_nodup (hm.of_map _) (hn.of_map _)).2 fun p => ?_
  rw [← get?_eq_some_iff hm, ← get?_eq_some_iff hn, h]

theorem get?_eq_of_perm {m n : Keyed κ α} (h : m.Perm n) (hm : (m.map Prod.fst).Nodup) (key : κ) :
    m.get? key = n.get? key := by
  have hn : (n.map Prod.fst).Nodup := (h.map Prod.fst).nodup hm
  refine Option.ext fun value => ?_
  rw [get?_eq_some_iff hm, get?_eq_some_iff hn, h.mem_iff]

/-- Where no key comes twice, a look-up in some of the values finds the value if it is there. -/
theorem get?_filter {m : Keyed κ α} (h : (m.map Prod.fst).Nodup) (q : κ × α → Bool) (key : κ) :
    get? key (m.filter q) = (m.get? key).filter fun value => q (key, value) := by
  have hfilter : ((m.filter q).map Prod.fst).Nodup := h.sublist (m.filter_sublist.map Prod.fst)
  refine Option.ext fun value => ?_
  rw [get?_eq_some_iff hfilter, List.mem_filter, Option.filter_eq_some_iff, get?_eq_some_iff h]

/-! ### Setting a value at the end -/

theorem keys_put (key : κ) (value : α) (m : Keyed κ α) :
    (m.put key value).map Prod.fst =
      if key ∈ m.map Prod.fst then m.map Prod.fst else m.map Prod.fst ++ [key] := by
  induction m with
  | nil => rfl
  | cons p m ih =>
    obtain ⟨k, v⟩ := p
    by_cases hk : k = key
    · simp [put, hk]
    · rw [put, if_neg hk, List.map_cons, ih]
      by_cases hmem : key ∈ m.map Prod.fst <;> simp [hmem, Ne.symm hk]

theorem nodup_keys_put {m : Keyed κ α} (h : (m.map Prod.fst).Nodup) (key : κ) (value : α) :
    ((m.put key value).map Prod.fst).Nodup := by
  rw [keys_put]
  split
  · exact h
  · next hmem => exact List.Nodup.append h (List.nodup_singleton key) (by simpa using hmem)

theorem nodup_keys_foldl_put (rows : List (κ × α)) {m : Keyed κ α} (h : (m.map Prod.fst).Nodup) :
    ((rows.foldl (fun m row => m.put row.1 row.2) m).map Prod.fst).Nodup := by
  induction rows generalizing m with
  | nil => exact h
  | cons row rows ih => exact ih (nodup_keys_put h row.1 row.2)

theorem mem_put {key : κ} {value : α} {m : Keyed κ α} {p : κ × α} (h : p ∈ m.put key value) :
    p = (key, value) ∨ p ∈ m := by
  induction m with
  | nil => simpa [put] using h
  | cons q m ih =>
    obtain ⟨k, v⟩ := q
    rw [put] at h
    split at h
    · rcases List.mem_cons.1 h with h | h
      · exact .inl h
      · exact .inr (List.mem_cons_of_mem _ h)
    · rcases List.mem_cons.1 h with h | h
      · exact .inr (h ▸ List.mem_cons_self)
      · exact (ih h).imp_right (List.mem_cons_of_mem _)

theorem length_put_le (key : κ) (value : α) (m : Keyed κ α) :
    (m.put key value).length ≤ m.length + 1 := by
  have h := congrArg List.length (keys_put key value m)
  rw [List.length_map] at h
  rw [h]
  split <;> simp

theorem length_put_ne_zero (key : κ) (value : α) (m : Keyed κ α) :
    (m.put key value).length ≠ 0 := by
  have h := congrArg List.length (keys_put key value m)
  rw [List.length_map] at h
  rw [h]
  split
  · next hmem => exact List.length_pos_of_mem hmem |>.ne'
  · simp

end

/-! ### Setting a value in its place -/

theorem get?_putSorted {κ α : Type} [DecidableEq κ] (less : κ → κ → Bool) (key other : κ)
    (value : α) (m : Keyed κ α) :
    get? other (putSorted less key value m) = if key = other then some value else get? other m := by
  induction m with
  | nil => simp [putSorted, get?]
  | cons p m ih =>
    obtain ⟨k, v⟩ := p
    rw [putSorted]
    by_cases hk : k = key
    · subst hk
      by_cases h : k = other <;> simp [get?, h]
    · by_cases hl : less key k = true
      · rw [if_neg hk, if_pos hl, get?]
      · by_cases h : k = other
        · subst h
          simp [hk, hl, get?, Ne.symm hk]
        · simp [hk, hl, get?, h, ih]

section

variable {κ α : Type} [DecidableEq κ] {less : κ → κ → Bool} {key : κ} {value : α} {m : Keyed κ α}

theorem mem_putSorted {p : κ × α} (h : p ∈ m.putSorted less key value) :
    p = (key, value) ∨ p ∈ m := by
  induction m with
  | nil => simpa [putSorted] using h
  | cons q m ih =>
    obtain ⟨k, v⟩ := q
    rw [putSorted] at h
    split at h
    · rcases List.mem_cons.1 h with h | h
      · exact .inl h
      · exact .inr (List.mem_cons_of_mem _ h)
    split at h
    · exact List.mem_cons.1 h
    · rcases List.mem_cons.1 h with h | h
      · exact .inr (h ▸ List.mem_cons_self)
      · exact (ih h).imp_right fun h => List.mem_cons_of_mem _ h

/-- A key that is new comes with its value to the others. -/
theorem putSorted_perm (h : key ∉ m.map Prod.fst) :
    (m.putSorted less key value).Perm ((key, value) :: m) := by
  induction m with
  | nil => exact .rfl
  | cons q m ih =>
    obtain ⟨k, v⟩ := q
    rw [List.map_cons, List.mem_cons, not_or] at h
    rw [putSorted, if_neg (Ne.symm h.1)]
    split
    · exact .rfl
    · exact ((ih h.2).cons (k, v)).trans (.swap (key, value) (k, v) m)

theorem pairwise_putSorted [IsStrictTotalOrder κ fun a b => less a b = true]
    (h : m.Pairwise fun p q => less p.1 q.1 = true) (key : κ) (value : α) :
    (m.putSorted less key value).Pairwise fun p q => less p.1 q.1 = true := by
  induction m with
  | nil => exact List.pairwise_singleton _ _
  | cons q m ih =>
    obtain ⟨k, v⟩ := q
    obtain ⟨hk, hm⟩ := List.pairwise_cons.1 h
    rw [putSorted]
    split
    · next he => exact List.pairwise_cons.2 ⟨fun p hp => he ▸ hk p hp, hm⟩
    split
    · next hl =>
      refine List.pairwise_cons.2 ⟨fun p hp => ?_, h⟩
      rcases List.mem_cons.1 hp with rfl | hp
      · exact hl
      · exact trans_of (fun a b => less a b = true) hl (hk p hp)
    · next hne hl =>
      have hl : less k key = true :=
        (trichotomous_of (fun a b => less a b = true) k key).resolve_right (not_or.2 ⟨hne, hl⟩)
      refine List.pairwise_cons.2 ⟨fun p hp => ?_, ih hm⟩
      rcases mem_putSorted hp with rfl | hp
      · exact hl
      · exact hk p hp

theorem foldl_putSorted_perm (rows : List (κ × α)) {m : Keyed κ α}
    (h : ((m ++ rows).map Prod.fst).Nodup) :
    (rows.foldl (fun m row => m.putSorted less row.1 row.2) m).Perm (m ++ rows) := by
  induction rows generalizing m with
  | nil => simp
  | cons row rows ih =>
    have hmiddle : (m ++ row :: rows).Perm (row :: m ++ rows) := List.perm_middle
    have hnodup := (hmiddle.map Prod.fst).nodup_iff.1 h
    have hnew : row.1 ∉ m.map Prod.fst := fun hmem =>
      (List.nodup_cons.1 hnodup).1 (by simp [List.mem_map.1 hmem])
    have hput : (m.putSorted less row.1 row.2 ++ rows).Perm (row :: m ++ rows) :=
      (putSorted_perm hnew).append_right rows
    exact (ih ((hput.map Prod.fst).nodup_iff.2 hnodup)).trans (hput.trans hmiddle.symm)

theorem mem_foldl_putSorted {rows : List (κ × α)} {p : κ × α}
    (h : p ∈ rows.foldl (fun m row => m.putSorted less row.1 row.2) m) : p ∈ m ∨ p ∈ rows := by
  induction rows generalizing m with
  | nil => exact .inl h
  | cons row rows ih =>
    rcases ih h with hp | hp
    · rcases mem_putSorted hp with rfl | hp
      · exact .inr List.mem_cons_self
      · exact .inl hp
    · exact .inr (List.mem_cons_of_mem row hp)

theorem pairwise_foldl_putSorted [IsStrictTotalOrder κ fun a b => less a b = true]
    (rows : List (κ × α)) (h : m.Pairwise fun p q => less p.1 q.1 = true) :
    (rows.foldl (fun m row => m.putSorted less row.1 row.2) m).Pairwise
      fun p q => less p.1 q.1 = true := by
  induction rows generalizing m with
  | nil => exact h
  | cons row rows ih => exact ih (pairwise_putSorted h row.1 row.2)

end

variable {α : Type}

instance : IsStrictTotalOrder String fun s t => Breaks.less s t = true := by
  simpa only [Breaks.less, decide_eq_true_eq] using
    inferInstanceAs (IsStrictTotalOrder String (· < ·))

/-- The keys are in strictly ascending order. -/
def InOrder (m : Keyed String α) : Prop := m.Pairwise fun p q => p.1 < q.1

theorem inOrder_nil : InOrder ([] : Keyed String α) := .nil

theorem inOrder_iff {m : Keyed String α} :
    m.InOrder ↔ m.Pairwise fun p q => Breaks.less p.1 q.1 = true := by
  simp [InOrder, Breaks.less]

theorem InOrder.putSorted {m : Keyed String α} (h : m.InOrder) (key : String) (value : α) :
    (m.putSorted Breaks.less key value).InOrder :=
  inOrder_iff.2 (pairwise_putSorted (inOrder_iff.1 h) key value)

theorem InOrder.nodup_keys {m : Keyed String α} (h : m.InOrder) : (m.map Prod.fst).Nodup :=
  List.pairwise_map.2 (h.imp fun hlt => hlt.ne)

theorem InOrder.eq_of_perm {m n : Keyed String α} (hm : m.InOrder) (hn : n.InOrder)
    (h : m.Perm n) : m = n :=
  h.eq_of_pairwise (fun _ _ _ _ hpq hqp => (hpq.trans hqp).false.elim) hm hn

/-- **Values in order are equal if all look-ups are.** -/
theorem InOrder.ext {m n : Keyed String α} (hm : m.InOrder) (hn : n.InOrder)
    (h : ∀ key, m.get? key = n.get? key) : m = n :=
  hm.eq_of_perm hn (perm_of_get?_eq hm.nodup_keys hn.nodup_keys h)

end Keyed
end Choropleth
