import Mathlib.Order.Lattice
import Mathlib.Order.Nat
import Choropleth.Proofs.Keyed
import Choropleth.Service.Cache

/-!
# Entries of a cache

Reading drops at most the entry of the key that is read, and only if its time has passed. Inserting
adds an entry and drops the oldest ones, so that a cache never has more entries than its capacity.

* `Cache.oldest?_le`, `Cache.shrink_eq`, `Cache.length_shrink_le`: dropping the oldest entries;
* `Cache.get?_cases`, `Cache.insert_cases`: what reading and inserting do.
-/

namespace Choropleth

namespace Cache

/-! ### Dropping entries -/

theorem mem_dropKey {key : String} {entries : Keyed String CacheEntry} {e : String × CacheEntry} :
    e ∈ dropKey key entries ↔ e ∈ entries ∧ e.1 ≠ key := by
  simp [dropKey]

theorem get?_dropKey (key other : String) (entries : Keyed String CacheEntry) :
    Keyed.get? other (dropKey key entries) = if other = key then none else entries.get? other :=
  Keyed.get?_filter_ne key other entries

theorem dropKey_sublist (key : String) (entries : Keyed String CacheEntry) :
    (dropKey key entries).Sublist entries :=
  List.filter_sublist

theorem oldest?_eq_none {entries : Keyed String CacheEntry} (h : oldest? entries = none) :
    entries = [] := by
  cases entries with
  | nil => rfl
  | cons e r =>
    rw [oldest?] at h
    split at h
    · cases h
    · split at h <;> cases h

/-- The oldest entry is one of the entries, and none of them is older. -/
theorem oldest?_le {entries : Keyed String CacheEntry} {o : String × CacheEntry}
    (h : oldest? entries = some o) :
    o ∈ entries ∧ ∀ e ∈ entries, o.2.inserted ≤ e.2.inserted := by
  induction entries generalizing o with
  | nil => cases h
  | cons e r ih =>
    rw [oldest?] at h
    split at h
    · next hr =>
      obtain rfl := oldest?_eq_none hr
      cases h
      exact ⟨List.mem_cons_self, by simp⟩
    · next o' hr =>
      obtain ⟨hmem, hle⟩ := ih hr
      split at h
      · next hlt =>
        cases h
        refine ⟨List.mem_cons_of_mem _ hmem, List.forall_mem_cons.2 ⟨hlt.le, hle⟩⟩
      · next hge =>
        cases h
        refine ⟨List.mem_cons_self, List.forall_mem_cons.2 ⟨le_rfl, fun f hf => ?_⟩⟩
        exact (not_lt.1 hge).trans (hle f hf)

theorem dropOldest_sublist (entries : Keyed String CacheEntry) :
    (dropOldest entries).Sublist entries := by
  unfold dropOldest
  split
  · exact .refl entries
  · exact dropKey_sublist _ _

theorem length_dropOldest_lt {entries : Keyed String CacheEntry} {n : ℕ}
    (h : n < entries.length) : (dropOldest entries).length < entries.length := by
  unfold dropOldest
  split
  · next hnone =>
    rw [oldest?_eq_none hnone] at h
    exact absurd h (Nat.not_lt_zero n)
  · next o ho =>
    refine lt_of_le_of_ne (dropKey_sublist _ _).length_le fun heq => ?_
    have hmem := (oldest?_le ho).1
    rw [← (dropKey_sublist o.1 entries).eq_of_length heq] at hmem
    exact (mem_dropKey.1 hmem).2 rfl

theorem shrink_sublist (capacity rounds : ℕ) (entries : Keyed String CacheEntry) :
    (shrink capacity rounds entries).Sublist entries := by
  induction rounds generalizing entries with
  | zero => exact .refl entries
  | succ rounds ih =>
    rw [shrink]
    split
    · exact (ih _).trans (dropOldest_sublist entries)
    · exact .refl entries

/-- After enough rounds there are not too many entries. -/
theorem length_shrink_le {capacity rounds : ℕ} {entries : Keyed String CacheEntry}
    (h : entries.length ≤ capacity + rounds) :
    (shrink capacity rounds entries).length ≤ capacity := by
  induction rounds generalizing entries with
  | zero => simpa [shrink] using h
  | succ rounds ih =>
    rw [shrink]
    split
    · next hlt =>
      have hdrop := length_dropOldest_lt hlt
      exact ih (by omega)
    · next hle => exact not_lt.1 hle

theorem shrink_of_le {capacity : ℕ} (rounds : ℕ) {entries : Keyed String CacheEntry}
    (h : entries.length ≤ capacity) : shrink capacity rounds entries = entries := by
  cases rounds with
  | zero => rfl
  | succ rounds => rw [shrink, if_neg (not_lt.2 h)]

/-- If there is at most one entry too many, at most the oldest is dropped. -/
theorem shrink_eq {capacity rounds : ℕ} {entries : Keyed String CacheEntry}
    (h : entries.length ≤ capacity + 1) (hrounds : rounds ≠ 0) :
    shrink capacity rounds entries =
      if capacity < entries.length then dropOldest entries else entries := by
  cases rounds with
  | zero => exact absurd rfl hrounds
  | succ rounds =>
    rw [shrink]
    split
    · next hlt =>
      have hdrop := length_dropOldest_lt hlt
      exact shrink_of_le rounds (by omega)
    · rfl

/-! ### Reading and inserting -/

theorem isEnabled_iff {c : Cache} : c.isEnabled = true ↔ 0 < c.lifetime ∧ 0 < c.capacity := by
  simp [isEnabled]

/-- What reading does: it finds an entry whose time has not passed, it finds none, or it drops an
entry whose time has passed. -/
theorem get?_cases (c : Cache) (key : String) (now : ℕ) :
    (∃ e, c.isEnabled = true ∧ c.entries.get? key = some e ∧ now - e.inserted < c.lifetime ∧
      c.get? key now = (some e, c)) ∨
      ((c.isEnabled = true → c.entries.get? key = none) ∧ c.get? key now = (none, c)) ∨
        ∃ e, c.isEnabled = true ∧ c.entries.get? key = some e ∧ c.lifetime ≤ now - e.inserted ∧
          c.get? key now = (none, { c with entries := dropKey key c.entries }) := by
  unfold get?
  split
  · next henabled =>
    split
    · next hnone => exact .inr (.inl ⟨fun _ => hnone, rfl⟩)
    · next e he =>
      split
      · next hlive => exact .inl ⟨e, henabled, he, hlive, rfl⟩
      · next hold => exact .inr (.inr ⟨e, henabled, he, not_lt.1 hold, rfl⟩)
  · next hdisabled => exact .inr (.inl ⟨fun h => absurd h hdisabled, rfl⟩)

/-- What inserting does: nothing if the cache keeps nothing; else it adds the entry and drops the
oldest ones. -/
theorem insert_cases (c : Cache) (key body : String) (mediaType : MediaType) (now : ℕ) :
    (c.isEnabled = false ∧ c.insert key body mediaType now = c) ∨
      c.isEnabled = true ∧ c.insert key body mediaType now =
        { c with
          entries := shrink c.capacity (c.entries.put key ⟨body, mediaType, now⟩).length
            (c.entries.put key ⟨body, mediaType, now⟩) } := by
  unfold insert
  split
  · next h => exact .inr ⟨h, rfl⟩
  · next h => exact .inl ⟨Bool.not_eq_true _ ▸ h, rfl⟩

/-- Neither reading nor inserting changes the limits of a cache. -/
theorem get?_limits (c : Cache) (key : String) (now : ℕ) :
    (c.get? key now).2.lifetime = c.lifetime ∧ (c.get? key now).2.capacity = c.capacity := by
  obtain ⟨e, -, -, -, h⟩ | ⟨-, h⟩ | ⟨e, -, -, -, h⟩ := c.get?_cases key now <;> simp [h]

theorem insert_limits (c : Cache) (key body : String) (mediaType : MediaType) (now : ℕ) :
    (c.insert key body mediaType now).lifetime = c.lifetime ∧
      (c.insert key body mediaType now).capacity = c.capacity := by
  obtain ⟨-, h⟩ | ⟨-, h⟩ := c.insert_cases key body mediaType now <;> simp [h]

/-- Inserting keeps a cache within its capacity. -/
theorem size_insert_le {c : Cache} (hc : c.size ≤ c.capacity) (key body : String)
    (mediaType : MediaType) (now : ℕ) : (c.insert key body mediaType now).size ≤ c.capacity := by
  obtain ⟨-, h⟩ | ⟨-, h⟩ := c.insert_cases key body mediaType now
  · rw [h]
    exact hc
  · rw [h]
    exact length_shrink_le (Nat.le_add_left _ _)

end Cache
end Choropleth
