/-!
# Lists of keyed values

* `Keyed.get?`: the value of a key;
* `Keyed.put`: sets the value of a key; a new key goes to the end;
* `Keyed.putSorted`: sets the value of a key; a new key goes to its place in ascending order;
* `Keyed.distinct`: the values that are found, each key once.
-/

namespace Choropleth

/-- Values with their keys. -/
abbrev Keyed (κ α : Type) := List (κ × α)

namespace Keyed

variable {κ α : Type} [DecidableEq κ]

/-- The value of a key. -/
def get? (key : κ) : Keyed κ α → Option α
  | [] => none
  | (k, v) :: r => if k = key then some v else get? key r

/-- Sets the value of a key. A key that is there keeps its place, a new one goes to the end. -/
def put (key : κ) (value : α) : Keyed κ α → Keyed κ α
  | [] => [(key, value)]
  | (k, v) :: r => if k = key then (key, value) :: r else (k, v) :: put key value r

/-- Sets the value of a key. A new key goes before the first greater one. -/
def putSorted (less : κ → κ → Bool) (key : κ) (value : α) : Keyed κ α → Keyed κ α
  | [] => [(key, value)]
  | (k, v) :: r =>
    if k = key then (key, value) :: r
    else if less key k then (key, value) :: (k, v) :: r
    else (k, v) :: putSorted less key value r

@[simp] theorem get?_nil (key : κ) : get? key ([] : Keyed κ α) = none := rfl

theorem get?_put (key other : κ) (value : α) (m : Keyed κ α) :
    get? other (put key value m) = if key = other then some value else get? other m := by
  induction m with
  | nil => simp [put, get?]
  | cons p r ih =>
    obtain ⟨k, v⟩ := p
    by_cases h : k = key
    · subst h
      by_cases h' : k = other <;> simp [put, get?, h']
    · by_cases h' : k = other
      · subst h'
        simp [put, get?, h, Ne.symm h]
      · simp [put, get?, h, h', ih]

theorem get?_filter_ne (key other : κ) (m : Keyed κ α) :
    get? other (m.filter fun p => p.1 ≠ key) = if other = key then none else get? other m := by
  induction m with
  | nil => simp
  | cons p m ih =>
    obtain ⟨k, v⟩ := p
    by_cases hk : k = key
    · by_cases ho : other = key <;> simp_all [get?, eq_comm]
    · by_cases ho : other = key
      · subst ho
        simp_all [get?]
      · simp_all [get?]

/-- The values that are found for keys, each key once, in the order in which the keys come. -/
def distinct : Keyed κ α → Keyed κ α
  | [] => []
  | (k, v) :: r => (k, v) :: (distinct r).filter fun p => p.1 ≠ k

theorem get?_distinct (m : Keyed κ α) (key : κ) : get? key (distinct m) = get? key m := by
  induction m with
  | nil => rfl
  | cons p m ih =>
    obtain ⟨k, v⟩ := p
    rw [distinct, get?, get?, get?_filter_ne, ih]
    by_cases hk : k = key
    · rw [if_pos hk, if_pos hk]
    · rw [if_neg hk, if_neg hk, if_neg (Ne.symm hk)]

theorem nodup_keys_distinct (m : Keyed κ α) : ((distinct m).map Prod.fst).Nodup := by
  induction m with
  | nil => exact .nil
  | cons p m ih =>
    obtain ⟨k, v⟩ := p
    refine List.nodup_cons.2 ⟨by simp, ?_⟩
    exact ih.sublist ((distinct m).filter_sublist.map Prod.fst)

end Keyed

/-- Values of areas. An area has one value; a later value takes the place of an earlier one. -/
abbrev Ledger := Keyed String Float

end Choropleth
