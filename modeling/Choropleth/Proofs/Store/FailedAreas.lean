import Choropleth.Proofs.Store.Loads

/-!
# Areas that are refused

Areas are stored one after the other, each by a statement of its own. The first area whose code is
there already ends the call, and the areas before it stay.

* `Store.CanAdd`: the codes of a store and of some areas are all different;
* `Store.Adds`: areas have been added to a store, and nothing else but area types;
* `Store.addAreas_ok`, `Store.addAreas_error`: a call that succeeds and one that fails;
* `Store.addAreas_isOk_iff`, `Store.addAreas_isError_iff`: which calls do;
* `refused_areas_keep_those_before`: what a refused area leaves behind, and what can be loaded then.
-/

namespace Choropleth
namespace Store

/-! ### Added areas -/

/-- The codes of the areas. -/
def codes (s : Store) : List String := s.areas.map AreaRow.code

/-- The codes of the store and of the areas are all different. -/
def CanAdd (s : Store) (records : List AreaRecord) : Prop :=
  (s.codes ++ records.map AreaRecord.code).Nodup

theorem CanAdd.not_mem {s : Store} {before rest : List AreaRecord} {r : AreaRecord}
    (h : s.CanAdd (before ++ r :: rest)) : r.code ∉ s.codes ++ before.map AreaRecord.code := by
  rw [CanAdd, List.map_append, ← List.append_assoc] at h
  exact fun hr => List.disjoint_of_nodup_append h hr (by simp)

/-- The row stores the area and refers to its type. -/
def IsRowOf (s : Store) (r : AreaRecord) (row : AreaRow) : Prop :=
  ∃ i, row = r.toRow i ∧ s.types[i]? = some r.areaType.name

/-- The areas have been added in order, and nothing else has changed but that area types may have
been added, too. -/
structure Adds (s s' : Store) (records : List AreaRecord) : Prop where
  areas : ∃ rows, s'.areas = s.areas ++ rows ∧ List.Forall₂ s'.IsRowOf records rows
  types : s.types <+: s'.types
  categories : s'.categories = s.categories
  releases : s'.releases = s.releases
  facts : s'.facts = s.facts

theorem IsRowOf.mono {s s' : Store} {r : AreaRecord} {row : AreaRow} (h : s.IsRowOf r row)
    (htypes : s.types <+: s'.types) : s'.IsRowOf r row := by
  obtain ⟨i, hrow, hi⟩ := h
  exact ⟨i, hrow, getElem?_of_isPrefix htypes hi⟩

theorem Adds.append {s t u : Store} {rs qs : List AreaRecord} (h : s.Adds t rs) (h' : t.Adds u qs) :
    s.Adds u (rs ++ qs) := by
  obtain ⟨rows, hareas, hrows⟩ := h.areas
  obtain ⟨others, hareas', hothers⟩ := h'.areas
  refine ⟨⟨rows ++ others, by rw [hareas', hareas, List.append_assoc], ?_⟩,
    h.types.trans h'.types, h'.categories.trans h.categories, h'.releases.trans h.releases,
    h'.facts.trans h.facts⟩
  exact List.rel_append (hrows.imp fun r row hr => hr.mono h'.types) hothers

theorem codes_of_rows {s : Store} {records : List AreaRecord} {rows : List AreaRow}
    (h : List.Forall₂ s.IsRowOf records rows) :
    rows.map AreaRow.code = records.map AreaRecord.code := by
  induction h with
  | nil => rfl
  | cons hr _ ih =>
    obtain ⟨i, rfl, -⟩ := hr
    rw [List.map_cons, List.map_cons, ih]
    rfl

theorem Adds.codes {s s' : Store} {records : List AreaRecord} (h : s.Adds s' records) :
    s'.codes = s.codes ++ records.map AreaRecord.code := by
  obtain ⟨rows, hareas, hrows⟩ := h.areas
  rw [Store.codes, hareas, List.map_append, codes_of_rows hrows, Store.codes]

/-- What can be added after some areas can be added together with them. -/
theorem Adds.canAdd_iff {s s' : Store} {rs : List AreaRecord} (h : s.Adds s' rs)
    (qs : List AreaRecord) : s'.CanAdd qs ↔ s.CanAdd (rs ++ qs) := by
  rw [CanAdd, CanAdd, h.codes, List.map_append, List.append_assoc]

theorem Adds.areas_eq_iff {s s' : Store} {records : List AreaRecord} (h : s.Adds s' records) :
    s'.areas = s.areas ↔ records = [] := by
  obtain ⟨rows, hareas, hrows⟩ := h.areas
  rw [hareas, List.append_right_eq_self, ← List.length_eq_zero_iff, ← hrows.length_eq,
    List.length_eq_zero_iff]

theorem adds_ensureType (s : Store) (t : AreaType) : s.Adds (s.ensureType t).2 [] :=
  ⟨⟨[], (List.append_nil _).symm, .nil⟩, (s.ensureType_spec t).1.types, rfl, rfl, rfl⟩

theorem Adds.refl (s : Store) : s.Adds s [] :=
  ⟨⟨[], (List.append_nil _).symm, .nil⟩, List.prefix_rfl, rfl, rfl, rfl⟩

theorem adds_typeId (s : Store) (known : Keyed AreaType ℕ) (t : AreaType) :
    s.Adds (s.typeId known t).2.2 [] := by
  unfold typeId
  split
  · exact .refl s
  · exact s.adds_ensureType t

/-! ### Single areas -/

/-- An area is refused just if its code is there. -/
theorem insertArea_eq (s : Store) (row : AreaRow) : s.insertArea row =
    if row.code ∈ s.codes then (.error (.duplicateArea row.code), s)
    else (.ok (), { s with areas := s.areas ++ [row] }) := by
  unfold insertArea
  by_cases h : row.code ∈ s.codes
  · rw [if_pos h, if_pos (areaId?_isSome_iff.2 h)]
  · rw [if_neg h, if_neg (mt areaId?_isSome_iff.1 h)]

theorem adds_insertArea {s : Store} {r : AreaRecord} {i : ℕ}
    (hi : s.types[i]? = some r.areaType.name) :
    s.Adds { s with areas := s.areas ++ [r.toRow i] } [r] :=
  ⟨⟨[r.toRow i], rfl, .cons ⟨i, rfl, hi⟩ .nil⟩, List.prefix_rfl, rfl, rfl, rfl⟩

/-! ### Calls -/

section

variable {s s' : Store} {known : Keyed AreaType ℕ} {records : List AreaRecord}

/-- The first area of a call is refused, or it is added and the call goes on. -/
theorem addAreasFrom_cons (hk : s.KnowsTypes known) (stored : ℕ) (r : AreaRecord)
    (rest : List AreaRecord) :
    (r.code ∈ s.codes ∧ ∃ t, s.Adds t [] ∧
      addAreasFrom stored known s (r :: rest) = (.error (.duplicateArea r.code), t)) ∨
    ∃ t known', t.KnowsTypes known' ∧ s.Adds t [r] ∧
      addAreasFrom stored known s (r :: rest) = addAreasFrom (stored + 1) known' t rest := by
  obtain ⟨-, hrow, hknown⟩ := typeId_spec hk r.areaType
  have htype := s.adds_typeId known r.areaType
  have hcodes := htype.codes
  rw [List.map_nil, List.append_nil] at hcodes
  rw [addAreasFrom]
  dsimp only
  rw [insertArea_eq, hcodes]
  by_cases hmem : (r.toRow (s.typeId known r.areaType).1).code ∈ s.codes
  · rw [if_pos hmem]
    exact .inl ⟨hmem, _, htype, rfl⟩
  · rw [if_neg hmem]
    refine .inr ⟨_, _, ?_, htype.append (adds_insertArea hrow), rfl⟩
    exact hknown

theorem addAreasFrom_ok (hk : s.KnowsTypes known) {stored n : ℕ}
    (h : addAreasFrom stored known s records = (.ok n, s')) :
    s.Adds s' records ∧ n = stored + records.length := by
  induction records generalizing s known stored with
  | nil =>
    cases h
    exact ⟨.refl _, rfl⟩
  | cons r rest ih =>
    rcases addAreasFrom_cons hk stored r rest with ⟨-, t, -, heq⟩ | ⟨t, known', hk', hr, heq⟩
    · cases heq.symm.trans h
    · obtain ⟨hrest, hn⟩ := ih hk' (heq.symm.trans h)
      exact ⟨hr.append hrest, by rw [hn, List.length_cons, Nat.add_assoc, Nat.add_comm 1]⟩

theorem addAreasFrom_error (hk : s.KnowsTypes known) {stored : ℕ} {e : StoreError}
    (h : addAreasFrom stored known s records = (.error e, s')) :
    ∃ before r rest, records = before ++ r :: rest ∧ s.Adds s' before ∧ r.code ∈ s'.codes ∧
      e = .duplicateArea r.code := by
  induction records generalizing s known stored with
  | nil => cases h
  | cons r rest ih =>
    rcases addAreasFrom_cons hk stored r rest with ⟨hmem, t, ht, heq⟩ | ⟨t, known', hk', hr, heq⟩
    · cases heq.symm.trans h
      refine ⟨[], r, rest, rfl, ht, ?_, rfl⟩
      rwa [ht.codes, List.map_nil, List.append_nil]
    · obtain ⟨before, q, rest', rfl, hbefore, hq, rfl⟩ := ih hk' (heq.symm.trans h)
      exact ⟨r :: before, q, rest', rfl, hr.append hbefore, hq, rfl⟩

theorem addAreas_ok {n : ℕ} (h : s.addAreas records = (.ok n, s')) :
    s.Adds s' records ∧ n = records.length := by
  obtain ⟨hadds, hn⟩ := addAreasFrom_ok (by rintro t i ⟨⟩) h
  exact ⟨hadds, hn.trans (Nat.zero_add _)⟩

/-- A call that fails has added the areas before the first whose code is there by then. -/
theorem addAreas_error {e : StoreError} (h : s.addAreas records = (.error e, s')) :
    ∃ before r rest, records = before ++ r :: rest ∧ s.Adds s' before ∧ r.code ∈ s'.codes ∧
      e = .duplicateArea r.code :=
  addAreasFrom_error (by rintro t i ⟨⟩) h

/-- Areas that have been added to a consistent store could be added. -/
theorem Adds.canAdd (h : s.Adds s' records) (hs' : s'.Consistent) : s.CanAdd records := by
  have hcodes : s'.CanAdd [] := by
    rw [CanAdd, List.map_nil, List.append_nil]
    exact hs'.areas
  simpa using (h.canAdd_iff []).1 hcodes

/-- A call succeeds just if all codes are different. -/
theorem addAreas_isOk_iff (hs : s.Consistent) :
    (∃ n, (s.addAreas records).1 = .ok n) ↔ s.CanAdd records := by
  have hconsistent := (s.grows_addAreas records).consistent hs
  rcases h : s.addAreas records with ⟨e | n, s'⟩
  · rw [h] at hconsistent
    obtain ⟨before, r, rest, rfl, hbefore, hr, -⟩ := addAreas_error h
    rw [hbefore.codes] at hr
    exact iff_of_false (by simp) fun hadd => hadd.not_mem hr
  · rw [h] at hconsistent
    exact iff_of_true ⟨n, rfl⟩ ((addAreas_ok h).1.canAdd hconsistent)

/-- A call fails just if the code of an area is there or repeats. -/
theorem addAreas_isError_iff (hs : s.Consistent) :
    (∃ e, (s.addAreas records).1 = .error e) ↔ ∃ before r rest, records = before ++ r :: rest ∧
      (r.code ∈ s.codes ∨ r.code ∈ before.map AreaRecord.code) := by
  constructor
  · rintro ⟨e, he⟩
    obtain ⟨before, r, rest, hrecords, hbefore, hr, -⟩ := addAreas_error (Prod.ext he rfl)
    rw [hbefore.codes, List.mem_append] at hr
    exact ⟨before, r, rest, hrecords, hr⟩
  · rintro ⟨before, r, rest, rfl, hr⟩
    have hfails : ¬∃ n, (s.addAreas (before ++ r :: rest)).1 = .ok n := fun hok =>
      ((addAreas_isOk_iff hs).1 hok).not_mem (List.mem_append.2 hr)
    cases h : (s.addAreas (before ++ r :: rest)).1 with
    | error e => exact ⟨e, rfl⟩
    | ok n => exact absurd ⟨n, h⟩ hfails

end

end Store

/-- **A refused area leaves the areas before it behind.** A call fails just if the code of an area
is in the store or repeats earlier in the list. The areas before the first such area have then been
added, in order, and but for area types nothing else has changed. So the stored areas are the same
as before just if the first area of the list is refused; the list without the refused area can be
loaded just in that case, if nothing else in it is refused; and what follows the refused area can be
loaded just if the whole list could have been loaded without it. -/
theorem refused_areas_keep_those_before (ls : List Load) (records : List AreaRecord) :
    let s := Load.runAll {} ls
    ((∃ e, (s.addAreas records).1 = .error e) ↔ ∃ before r rest, records = before ++ r :: rest ∧
      (r.code ∈ s.codes ∨ r.code ∈ before.map AreaRecord.code)) ∧
    ∀ e s', s.addAreas records = (.error e, s') →
      ∃ before r rest, records = before ++ r :: rest ∧ e = .duplicateArea r.code ∧
        (r.code ∈ s.codes ∨ r.code ∈ before.map AreaRecord.code) ∧ s.CanAdd before ∧
        s.Adds s' before ∧ s'.Consistent ∧ (∀ q, s'.select q = s.select q) ∧
        (s'.areas = s.areas ↔ before = []) ∧
        ((∃ n, (s'.addAreas (before ++ rest)).1 = .ok n) ↔ before = [] ∧ s.CanAdd rest) ∧
        ((∃ n, (s'.addAreas rest).1 = .ok n) ↔ s.CanAdd (before ++ rest)) := by
  intro s
  have hs : s.Consistent := (Load.runAll_spec Store.consistent_empty ls).1
  refine ⟨Store.addAreas_isError_iff hs, fun e s' h => ?_⟩
  obtain ⟨before, r, rest, rfl, hbefore, hr, rfl⟩ := Store.addAreas_error h
  have hgrows := s.grows_addAreas (before ++ r :: rest)
  rw [h] at hgrows
  have hs' := hgrows.consistent hs
  rw [hbefore.codes, List.mem_append] at hr
  refine ⟨before, r, rest, rfl, rfl, hr, hbefore.canAdd hs', hbefore, hs',
    fun q => hgrows.select_eq hs q, hbefore.areas_eq_iff, ?_, ?_⟩
  · -- without the refused area, the first of those before it is refused
    rw [Store.addAreas_isOk_iff hs', hbefore.canAdd_iff]
    cases before with
    | nil => simp
    | cons q before => exact iff_of_false (fun hadd => hadd.not_mem (by simp)) (by simp)
  · rw [Store.addAreas_isOk_iff hs', hbefore.canAdd_iff]

/-- Two areas and the first of them once more: the two stay, and loading just them is refused. -/
theorem refused_area_leaves_a_trace :
    let a : AreaRecord := { code := "A", areaType := .district }
    let b : AreaRecord := { code := "B", areaType := .district }
    let s := Load.runAll {} []
    ∃ s', s.addAreas [a, b, a] = (.error (.duplicateArea "A"), s') ∧ s'.areas ≠ s.areas ∧
      s'.codes = ["A", "B"] ∧ (s'.addAreas [a, b]).1 = .error (.duplicateArea "A") :=
  ⟨_, rfl, by decide, rfl, rfl⟩

end Choropleth
