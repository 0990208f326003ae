import Choropleth.Json.Basic
import Choropleth.Proofs.Keyed

/-!
# Canonical values

A value that has been read into memory is canonical: the members of every object in it are in
ascending order of their names, and no name comes twice.

* `Json.inOrder_sortMembers`, `Json.sortMembers_eq_of_perm`: sorted members;
* `Json.lookup?_eq_get?`, `Json.valuesOf_eq_toList`: looking up names that do not come twice;
* `Json.IsCanonical`, `Json.isCanonical_object`: canonical values;
* `Json.isCanonical_canonical`: the canonical form of a value is canonical;
* `Json.sortMembers_canonicalMembers`: members may be sorted before or after their values;
* `Json.isSound_object`: sound objects.
-/

namespace Choropleth
namespace Json

variable {name : String} {members sorted : Members} {items : List Json}

/-! ### Sorted members -/

theorem insertMember_eq (name : String) (value : Json) (members : Members) :
    insertMember name value members = Keyed.putSorted Breaks.less name value members := by
  induction members with
  | nil => rfl
  | cons m members ih =>
    obtain ⟨n, v⟩ := m
    rw [insertMember, Keyed.putSorted, ih]
    simp only [Breaks.less, decide_eq_true_eq, @eq_comm _ n]

theorem sortMembers_eq (members : Members) : sortMembers members =
    members.foldl (fun sorted m => Keyed.putSorted Breaks.less m.1 m.2 sorted) [] := by
  simp only [sortMembers, insertMember_eq]

theorem inOrder_sortMembers (members : Members) : Keyed.InOrder (sortMembers members) := by
  rw [Keyed.inOrder_iff, sortMembers_eq]
  exact Keyed.pairwise_foldl_putSorted members .nil

theorem sortMembers_perm (h : (members.map Prod.fst).Nodup) :
    (sortMembers members).Perm members := by
  rw [sortMembers_eq]
  exact Keyed.foldl_putSorted_perm members h

/-- Members that are in order up to a permutation are put in this order. -/
theorem sortMembers_eq_of_perm (h : members.Perm sorted) (hs : Keyed.InOrder sorted) :
    sortMembers members = sorted := by
  have hnodup : (members.map Prod.fst).Nodup := (h.map Prod.fst).nodup_iff.2 hs.nodup_keys
  exact (inOrder_sortMembers members).eq_of_perm hs ((sortMembers_perm hnodup).trans h)

theorem mem_of_mem_sortMembers {m : String × Json} (h : m ∈ sortMembers members) :
    m ∈ members := by
  rw [sortMembers_eq] at h
  exact (Keyed.mem_foldl_putSorted h).resolve_left (List.not_mem_nil)

/-! ### Looking up names -/

/-- Where no name comes twice, it does not matter which of its members counts. -/
theorem lookup?_eq_get? (h : (members.map Prod.fst).Nodup) (name : String) :
    lookup? name members = Keyed.get? name members := by
  induction members with
  | nil => rfl
  | cons m members ih =>
    obtain ⟨n, v⟩ := m
    obtain ⟨hn, hmembers⟩ := List.nodup_cons.1 h
    rw [lookup?, Keyed.get?, ih hmembers]
    by_cases hname : n = name
    · rw [Keyed.get?_eq_none_of_not_mem (hname ▸ hn), if_pos hname]
    · cases hget : Keyed.get? name members <;> simp [hname]

theorem valuesOf_eq_toList (h : (members.map Prod.fst).Nodup) (name : String) :
    valuesOf name members = (lookup? name members).toList := by
  rw [lookup?_eq_get? h]
  induction members with
  | nil => rfl
  | cons m members ih =>
    obtain ⟨n, v⟩ := m
    obtain ⟨hn, hmembers⟩ := List.nodup_cons.1 h
    rw [valuesOf, List.filterMap_cons, Keyed.get?, ← valuesOf, ih hmembers]
    by_cases hname : n = name
    · simp [hname, Keyed.get?_eq_none_of_not_mem (hname ▸ hn : name ∉ members.map Prod.fst)]
    · simp [hname]

/-! ### Canonical values -/

/-- The value is in its canonical form. -/
def IsCanonical (v : Json) : Prop := canonical v = v

theorem map_eq_self_iff {α : Type} {f : α → α} {xs : List α} :
    xs.map f = xs ↔ ∀ x ∈ xs, f x = x := by
  simpa using List.map_inj_left (l := xs) (f := f) (g := id)

theorem canonicalItems_eq (items : List Json) : canonicalItems items = items.map canonical := by
  induction items with
  | nil => rfl
  | cons v items ih => rw [canonicalItems, ih, List.map_cons]

theorem canonicalMembers_eq (members : Members) :
    canonicalMembers members = members.map fun m => (m.1, canonical m.2) := by
  induction members with
  | nil => rfl
  | cons m members ih => rw [canonicalMembers, ih, List.map_cons]

theorem canonicalMembers_eq_self (h : ∀ m ∈ members, IsCanonical m.2) :
    canonicalMembers members = members := by
  rw [canonicalMembers_eq, map_eq_self_iff]
  exact fun m hm => Prod.ext rfl (h m hm)

theorem isCanonical_array : IsCanonical (.array items) ↔ ∀ v ∈ items, IsCanonical v := by
  rw [IsCanonical, canonical, canonicalItems_eq, Json.array.injEq]
  exact map_eq_self_iff

/-- **In a canonical object the members are in order, and their values are canonical.** -/
theorem isCanonical_object : IsCanonical (.object members) ↔
    Keyed.InOrder members ∧ ∀ m ∈ members, IsCanonical m.2 := by
  rw [IsCanonical, canonical, Json.object.injEq]
  constructor
  · intro h
    have hm : Keyed.InOrder members := h ▸ inOrder_sortMembers _
    -- the canonical values stand under the same names, so that sorting leaves them in place
    have hvalues : Keyed.InOrder (canonicalMembers members) := by
      rw [canonicalMembers_eq]
      exact List.pairwise_map.2 hm
    rw [sortMembers_eq_of_perm .rfl hvalues, canonicalMembers_eq, map_eq_self_iff] at h
    exact ⟨hm, fun m hmem => congrArg Prod.snd (h m hmem)⟩
  · rintro ⟨hm, hvalues⟩
    rw [canonicalMembers_eq_self hvalues, sortMembers_eq_of_perm .rfl hm]

theorem IsCanonical.inOrder (h : IsCanonical (.object members)) : Keyed.InOrder members :=
  (isCanonical_object.1 h).1

theorem IsCanonical.nodup_keys (h : IsCanonical (.object members)) :
    (members.map Prod.fst).Nodup :=
  h.inOrder.nodup_keys

theorem IsCanonical.filter (h : IsCanonical (.object members)) (q : String × Json → Bool) :
    IsCanonical (.object (members.filter q)) := by
  obtain ⟨hm, hvalues⟩ := isCanonical_object.1 h
  exact isCanonical_object.2 ⟨hm.filter q, fun m hmem => hvalues m (List.mem_of_mem_filter hmem)⟩

mutual

/-- **The canonical form of a value is canonical.** -/
theorem isCanonical_canonical : ∀ v : Json, IsCanonical (canonical v)
  | .array items => isCanonical_array.2 (isCanonical_of_mem_canonicalItems items)
  | .object members => isCanonical_object.2 ⟨inOrder_sortMembers _, fun m hm =>
      isCanonical_of_mem_canonicalMembers members m (mem_of_mem_sortMembers hm)⟩
  | .null => rfl
  | .bool _ => rfl
  | .int _ => rfl
  | .float _ => rfl
  | .string _ => rfl

theorem isCanonical_of_mem_canonicalItems :
    ∀ items : List Json, ∀ v ∈ canonicalItems items, IsCanonical v
  | [] => nofun
  | v :: items => List.forall_mem_cons.2
      ⟨isCanonical_canonical v, isCanonical_of_mem_canonicalItems items⟩

theorem isCanonical_of_mem_canonicalMembers :
    ∀ members : Members, ∀ m ∈ canonicalMembers members, IsCanonical m.2
  | [] => nofun
  | (_, v) :: members => List.forall_mem_cons.2
      ⟨isCanonical_canonical v, isCanonical_of_mem_canonicalMembers members⟩

end

theorem canonicalMembers_canonicalMembers (members : Members) :
    canonicalMembers (canonicalMembers members) = canonicalMembers members :=
  canonicalMembers_eq_self (isCanonical_of_mem_canonicalMembers members)

theorem valuesOf_canonicalMembers (name : String) (members : Members) :
    valuesOf name (canonicalMembers members) = (valuesOf name members).map canonical := by
  rw [valuesOf, canonicalMembers_eq, List.filterMap_map, valuesOf, List.map_filterMap]
  refine List.filterMap_congr fun m _ => ?_
  by_cases h : m.1 = name <;> simp [h]

/-- Members may be sorted before or after their values are brought into canonical form. -/
theorem sortMembers_canonicalMembers (members : Members) :
    sortMembers (canonicalMembers members) = canonicalMembers (sortMembers members) := by
  have hinsert (n : String) (v : Json) (sorted : Members) :
      canonicalMembers (insertMember n v sorted) =
        insertMember n (canonical v) (canonicalMembers sorted) := by
    induction sorted with
    | nil => rfl
    | cons m sorted ih =>
      rw [insertMember, canonicalMembers, insertMember, ← ih]
      split_ifs <;> rfl
  have hfold (sorted : Members) :
      (canonicalMembers members).foldl (fun sorted m => insertMember m.1 m.2 sorted)
          (canonicalMembers sorted) =
        canonicalMembers (members.foldl (fun sorted m => insertMember m.1 m.2 sorted) sorted) := by
    induction members generalizing sorted with
    | nil => rfl
    | cons m members ih =>
      rw [canonicalMembers, List.foldl_cons, List.foldl_cons, ← hinsert, ih]
  exact hfold []

/-! ### Sound values -/

theorem isFiniteMembers_iff : isFiniteMembers members = true ↔
    ∀ m ∈ members, m.2.isFinite = true := by
  induction members with
  | nil => simp [isFiniteMembers]
  | cons m members ih => simp [isFiniteMembers, ih]

theorem depthMembers_lt_iff {d : ℕ} (hd : 0 < d) : depthMembers members < d ↔
    ∀ m ∈ members, m.2.depth < d := by
  induction members with
  | nil => simp [depthMembers, hd]
  | cons m members ih => simp [depthMembers, ih]

/-- An object is sound if its values are, and one less deep. -/
theorem isSound_object : isSound (.object members) = true ↔
    ∀ m ∈ members, m.2.isFinite = true ∧ m.2.depth < maxDepth := by
  rw [isSound, Bool.and_eq_true, decide_eq_true_eq, isFinite, isFiniteMembers_iff, depth,
    Nat.add_one_le_iff, depthMembers_lt_iff (by decide), ← forall₂_and]

end Json
end Choropleth
