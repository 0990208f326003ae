import Mathlib.Data.List.Infix
import Mathlib.Data.List.Nodup
import Choropleth.Proofs.Store.Statements
import Choropleth.Store.Scan

/-!
# How stores grow

Loading only adds rows, so that the number of a row stands for the same row ever after. A store
stays consistent: no row comes twice, and what a row refers to is there.

* `Store.Refers`, `Store.Consistent`: what a fact refers to, and consistent stores;
* `Store.Grows`: rows are added to a store, but no facts;
* `Store.Grows.rows_eq`: the facts of a store that grows stay as they are;
* `Store.grows_addAreas`, `Store.resolve_spec`: the steps of a load.
-/

namespace Choropleth
namespace Store

/-! ### Consistent stores -/

/-- What the entry refers to is there, and its category belongs to the census year of its
release. -/
def Refers (s : Store) (f : FactEntry) : Prop :=
  ∃ area areaType category release,
    s.areas[f.areaId]? = some area ∧ s.types[area.typeId]? = some areaType ∧
      s.categories[f.categoryId]? = some category ∧ s.releases[f.releaseId]? = some release ∧
        category.year = release.year

/-- A row keeps its number in a table that gets longer. -/
theorem getElem?_of_isPrefix {α : Type} {l m : List α} (h : l <+: m) {i : ℕ} {a : α}
    (ha : l[i]? = some a) : m[i]? = some a := by
  obtain ⟨r, rfl⟩ := h
  rw [List.getElem?_append_left (List.getElem?_eq_some_iff.1 ha).1, ha]

/-- What an entry refers to stays there in tables that get longer. -/
theorem Refers.mono {s s' : Store} {f : FactEntry} (hf : s.Refers f) (htypes : s.types <+: s'.types)
    (hareas : s.areas <+: s'.areas) (hcategories : s.categories <+: s'.categories)
    (hreleases : s.releases <+: s'.releases) : s'.Refers f := by
  obtain ⟨area, areaType, category, release, harea, htype, hcategory, hrelease, hyear⟩ := hf
  exact ⟨area, areaType, category, release, getElem?_of_isPrefix hareas harea,
    getElem?_of_isPrefix htypes htype, getElem?_of_isPrefix hcategories hcategory,
    getElem?_of_isPrefix hreleases hrelease, hyear⟩

/-- Type names, area codes, categories with their years and releases are unique. Every area has a
type, and every fact an area, a category of the right year and a release. -/
structure Consistent (s : Store) : Prop where
  types : s.types.Nodup
  areas : (s.areas.map AreaRow.code).Nodup
  categories : s.categories.Nodup
  releases : s.releases.Nodup
  areaTypes : ∀ a ∈ s.areas, ∃ t, s.types[a.typeId]? = some t
  facts : ∀ f ∈ s.facts, s.Refers f

theorem consistent_empty : ({} : Store).Consistent :=
  ⟨.nil, .nil, .nil, .nil, nofun, nofun⟩

/-! ### Growth -/

/-- The tables that facts refer to only get longer, the facts stay, and the store stays
consistent. -/
structure Grows (s s' : Store) : Prop where
  types : s.types <+: s'.types
  areas : s.areas <+: s'.areas
  categories : s.categories <+: s'.categories
  releases : s.releases <+: s'.releases
  facts : s'.facts = s.facts
  consistent : s.Consistent → s'.Consistent

theorem Grows.refl (s : Store) : s.Grows s :=
  ⟨List.prefix_rfl, List.prefix_rfl, List.prefix_rfl, List.prefix_rfl, rfl, id⟩

theorem Grows.trans {s t u : Store} (h : s.Grows t) (h' : t.Grows u) : s.Grows u :=
  ⟨h.types.trans h'.types, h.areas.trans h'.areas, h.categories.trans h'.categories,
    h.releases.trans h'.releases, h'.facts.trans h.facts, h'.consistent ∘ h.consistent⟩

/-- An entry joined with what it refers to. -/
theorem exists_row? {s : Store} {f : FactEntry} {area : AreaRow} {areaType : String}
    {category : CategoryRow} {release : Release} (harea : s.areas[f.areaId]? = some area)
    (htype : s.types[area.typeId]? = some areaType)
    (hcategory : s.categories[f.categoryId]? = some category)
    (hrelease : s.releases[f.releaseId]? = some release) :
    ∃ row, s.row? f = some row ∧ row.toObservation = ⟨area.code, category.code, f.value⟩ ∧
      row.categoryYear = category.year ∧ row.releaseYear = release.year ∧
        row.releaseLabel = release.label := by
  simp [row?, harea, htype, hcategory, hrelease, FactRow.toObservation]

theorem Grows.row?_eq {s s' : Store} (h : s.Grows s') {f : FactEntry} (hf : s.Refers f) :
    s'.row? f = s.row? f := by
  obtain ⟨area, areaType, category, release, harea, htype, hcategory, hrelease, -⟩ := hf
  rw [row?, row?, harea, getElem?_of_isPrefix h.areas harea]
  simp only [htype, hcategory, hrelease, getElem?_of_isPrefix h.types htype,
    getElem?_of_isPrefix h.categories hcategory, getElem?_of_isPrefix h.releases hrelease,
    Option.bind_eq_bind, Option.bind_some]

/-- **The facts of a store that grows stay as they are.** -/
theorem Grows.rows_eq {s s' : Store} (h : s.Grows s') (hs : s.Consistent) : s'.rows = s.rows := by
  rw [rows, rows, h.facts]
  exact List.filterMap_congr fun f hf => h.row?_eq (hs.facts f hf)

/-! ### Rows that are added unless they are there -/

theorem placeRow_spec {α : Type} [DecidableEq α] (row : α) (table : List α) :
    table <+: (placeRow row table).2 ∧ (placeRow row table).2[(placeRow row table).1]? = some row ∧
      (table.Nodup → (placeRow row table).2.Nodup) := by
  unfold placeRow
  split
  · next i hi =>
    obtain ⟨hlt, hrow, -⟩ := List.findIdx?_eq_some_iff_getElem.1 hi
    have hrow : table[i] = row := by simpa using hrow
    exact ⟨List.prefix_rfl, by rw [List.getElem?_eq_getElem hlt, hrow], id⟩
  · next hnone =>
    have hnew : row ∉ table := by
      intro hmem
      simpa using List.findIdx?_eq_none_iff.1 hnone row hmem
    refine ⟨List.prefix_append table [row], List.getElem?_concat_length, fun hnodup => ?_⟩
    exact List.Nodup.append hnodup (List.nodup_singleton row) (by simpa using hnew)

theorem ensureType_spec (s : Store) (t : AreaType) :
    s.Grows (s.ensureType t).2 ∧ (s.ensureType t).2.types[(s.ensureType t).1]? = some t.name := by
  obtain ⟨hpre, hrow, hnodup⟩ := placeRow_spec t.name s.types
  refine ⟨⟨hpre, List.prefix_rfl, List.prefix_rfl, List.prefix_rfl, rfl, fun hs => ?_⟩, hrow⟩
  refine ⟨hnodup hs.types, hs.areas, hs.categories, hs.releases, fun a ha => ?_, fun f hf => ?_⟩
  · obtain ⟨u, hu⟩ := hs.areaTypes a ha
    exact ⟨u, getElem?_of_isPrefix hpre hu⟩
  · exact (hs.facts f hf).mono hpre List.prefix_rfl List.prefix_rfl List.prefix_rfl

theorem ensureCategory_spec (s : Store) (code : String) (year : ℤ) :
    s.Grows (s.ensureCategory code year).2 ∧
      (s.ensureCategory code year).2.categories[(s.ensureCategory code year).1]? =
        some ⟨code, year⟩ := by
  obtain ⟨hpre, hrow, hnodup⟩ := placeRow_spec (⟨code, year⟩ : CategoryRow) s.categories
  refine ⟨⟨List.prefix_rfl, List.prefix_rfl, hpre, List.prefix_rfl, rfl, fun hs => ?_⟩, hrow⟩
  refine ⟨hs.types, hs.areas, hnodup hs.categories, hs.releases, hs.areaTypes, fun f hf => ?_⟩
  exact (hs.facts f hf).mono List.prefix_rfl List.prefix_rfl hpre List.prefix_rfl

theorem ensureRelease_spec (s : Store) (r : Release) :
    s.Grows (s.ensureRelease r).2 ∧
      (s.ensureRelease r).2.releases[(s.ensureRelease r).1]? = some r := by
  obtain ⟨hpre, hrow, hnodup⟩ := placeRow_spec r s.releases
  refine ⟨⟨List.prefix_rfl, List.prefix_rfl, List.prefix_rfl, hpre, rfl, fun hs => ?_⟩, hrow⟩
  refine ⟨hs.types, hs.areas, hs.categories, hnodup hs.releases, hs.areaTypes, fun f hf => ?_⟩
  exact (hs.facts f hf).mono List.prefix_rfl List.prefix_rfl List.prefix_rfl hpre

/-! ### Areas -/

/-- The numbers that are kept belong to the types they are kept for. -/
def KnowsTypes (s : Store) (known : Keyed AreaType ℕ) : Prop :=
  ∀ t i, known.get? t = some i → s.types[i]? = some t.name

theorem KnowsTypes.grows {s s' : Store} {known : Keyed AreaType ℕ} (hk : s.KnowsTypes known)
    (h : s.Grows s') : s'.KnowsTypes known :=
  fun t i hi => getElem?_of_isPrefix h.types (hk t i hi)

theorem typeId_spec {s : Store} {known : Keyed AreaType ℕ} (hk : s.KnowsTypes known)
    (t : AreaType) :
    s.Grows (s.typeId known t).2.2 ∧
      (s.typeId known t).2.2.types[(s.typeId known t).1]? = some t.name ∧
        (s.typeId known t).2.2.KnowsTypes (s.typeId known t).2.1 := by
  unfold typeId
  split
  · next i hi => exact ⟨.refl s, hk t i hi, hk⟩
  · obtain ⟨hgrows, hrow⟩ := s.ensureType_spec t
    refine ⟨hgrows, hrow, fun u i hi => ?_⟩
    rw [Keyed.get?_put] at hi
    split at hi
    · next he =>
      rw [← Option.some.inj hi, ← he]
      exact hrow
    · exact hk.grows hgrows u i hi

theorem areaId?_isSome_iff {s : Store} {code : String} :
    (s.areaId? code).isSome = true ↔ code ∈ s.areas.map AreaRow.code := by
  simp [areaId?, List.findIdx?_isSome]

theorem insertArea_grows (s : Store) (row : AreaRow) {t : String}
    (ht : s.types[row.typeId]? = some t) : s.Grows (s.insertArea row).2 := by
  unfold insertArea
  split
  · exact .refl s
  · next hnew =>
    have hpre : s.areas <+: s.areas ++ [row] := List.prefix_append _ _
    refine ⟨List.prefix_rfl, hpre, List.prefix_rfl, List.prefix_rfl, rfl, fun hs => ?_⟩
    refine ⟨hs.types, ?_, hs.categories, hs.releases, fun a ha => ?_, fun f hf => ?_⟩
    · rw [List.map_append]
      refine List.Nodup.append hs.areas (List.nodup_singleton _) ?_
      simpa using mt areaId?_isSome_iff.2 hnew
    · rcases List.mem_append.1 ha with ha | ha
      · exact hs.areaTypes a ha
      · rw [List.mem_singleton.1 ha]
        exact ⟨t, ht⟩
    · exact (hs.facts f hf).mono List.prefix_rfl hpre List.prefix_rfl List.prefix_rfl

theorem grows_addAreasFrom {s : Store} {known : Keyed AreaType ℕ} (hk : s.KnowsTypes known)
    (stored : ℕ) (records : List AreaRecord) :
    s.Grows (addAreasFrom stored known s records).2 := by
  -- growing keeps the numbers that are kept right for the rest of the call
  induction records generalizing s known stored with
  | nil => exact .refl s
  | cons r rest ih =>
    obtain ⟨htype, hrow, hknown⟩ := typeId_spec hk r.areaType
    have harea := insertArea_grows (s.typeId known r.areaType).2.2
      (r.toRow (s.typeId known r.areaType).1) hrow
    unfold addAreasFrom
    dsimp only
    split
    · next e s' heq =>
      rw [heq] at harea
      exact htype.trans harea
    · next s' heq =>
      rw [heq] at harea
      exact (htype.trans harea).trans (ih (hknown.grows harea) (stored + 1))

/-- Storing areas adds no facts, whether it fails or not. -/
theorem grows_addAreas (s : Store) (records : List AreaRecord) : s.Grows (s.addAreas records).2 :=
  grows_addAreasFrom (by rintro t i ⟨⟩) 0 records

/-! ### Areas and categories of observations -/

/-- The numbers belong to areas with these codes. -/
def KnowsAreas (s : Store) (areas : Keyed String ℕ) : Prop :=
  ∀ code i, areas.get? code = some i → ∃ a, s.areas[i]? = some a ∧ a.code = code

/-- The numbers that are kept belong to categories with these codes in the year. -/
def KnowsCategories (s : Store) (year : ℤ) (known : Keyed String ℕ) : Prop :=
  ∀ code i, known.get? code = some i → s.categories[i]? = some ⟨code, year⟩

theorem KnowsCategories.grows {s s' : Store} {year : ℤ} {known : Keyed String ℕ}
    (hk : s.KnowsCategories year known) (h : s.Grows s') : s'.KnowsCategories year known :=
  fun code i hi => getElem?_of_isPrefix h.categories (hk code i hi)

theorem knowsCategories_nil (s : Store) (year : ℤ) : s.KnowsCategories year [] := by
  rintro code i ⟨⟩

theorem KnowsAreas.grows {s s' : Store} {areas : Keyed String ℕ} (ha : s.KnowsAreas areas)
    (h : s.Grows s') : s'.KnowsAreas areas := by
  intro code i hi
  obtain ⟨a, hrow, hcode⟩ := ha code i hi
  exact ⟨a, getElem?_of_isPrefix h.areas hrow, hcode⟩

theorem get?_foldl_put (ps : List (AreaRow × ℕ)) (ids : Keyed String ℕ) (code : String) :
    (∀ i, (ps.foldl (fun ids p => ids.put p.1.code p.2) ids).get? code = some i →
      ids.get? code = some i ∨ ∃ p ∈ ps, p.1.code = code ∧ p.2 = i) ∧
      ((ps.foldl (fun ids p => ids.put p.1.code p.2) ids).get? code = none →
        ids.get? code = none ∧ ∀ p ∈ ps, p.1.code ≠ code) := by
  induction ps generalizing ids with
  | nil => simp
  | cons p ps ih =>
    obtain ⟨hsome, hnone⟩ := ih (ids.put p.1.code p.2)
    rw [List.foldl_cons]
    constructor
    · intro i hi
      rcases hsome i hi with h | ⟨q, hq, hrow⟩
      · rw [Keyed.get?_put] at h
        split at h
        · next hcode => exact .inr ⟨p, List.mem_cons_self, hcode, Option.some.inj h⟩
        · exact .inl h
      · exact .inr ⟨q, List.mem_cons_of_mem p hq, hrow⟩
    · intro h
      obtain ⟨hput, hrest⟩ := hnone h
      rw [Keyed.get?_put] at hput
      split at hput
      · cases hput
      · next hcode => exact ⟨hput, List.forall_mem_cons.2 ⟨hcode, hrest⟩⟩

theorem knowsAreas_areaIds (s : Store) : s.KnowsAreas s.areaIds := by
  intro code i hi
  rcases (get?_foldl_put s.areas.zipIdx [] code).1 i hi with h | ⟨p, hp, hcode, rfl⟩
  · cases h
  · exact ⟨p.1, List.mem_zipIdx_iff_getElem?.1 hp, hcode⟩

theorem areaIds_eq_none {s : Store} {code : String} (h : s.areaIds.get? code = none) :
    code ∉ s.areas.map AreaRow.code := by
  intro hmem
  obtain ⟨a, ha, rfl⟩ := List.mem_map.1 hmem
  obtain ⟨i, hi⟩ := List.mem_iff_getElem?.1 ha
  exact (get?_foldl_put s.areas.zipIdx [] a.code).2 h |>.2 (a, i)
    (List.mem_zipIdx_iff_getElem?.2 hi) rfl

theorem categoryId_spec {s : Store} {year : ℤ} {known : Keyed String ℕ}
    (hk : s.KnowsCategories year known) (code : String) :
    s.Grows (s.categoryId year known code).2.2 ∧
      (s.categoryId year known code).2.2.categories[(s.categoryId year known code).1]? =
        some ⟨code, year⟩ ∧
        (s.categoryId year known code).2.2.KnowsCategories year
          (s.categoryId year known code).2.1 := by
  unfold categoryId
  split
  · next i hi => exact ⟨.refl s, hk code i hi, hk⟩
  · obtain ⟨hgrows, hrow⟩ := s.ensureCategory_spec code year
    refine ⟨hgrows, hrow, fun other i hi => ?_⟩
    rw [Keyed.get?_put] at hi
    split at hi
    · next he =>
      rw [← Option.some.inj hi, ← he]
      exact hrow
    · exact hk.grows hgrows other i hi

/-- The area, the category and the value of an observation have been looked up. -/
def Resolves (s : Store) (year : ℤ) (o : Observation) (e : Resolved) : Prop :=
  (∃ a, s.areas[e.areaId]? = some a ∧ a.code = o.area) ∧
    s.categories[e.categoryId]? = some ⟨o.category, year⟩ ∧ e.value = o.value

theorem Resolves.grows {s s' : Store} {year : ℤ} {o : Observation} {e : Resolved}
    (hr : s.Resolves year o e) (h : s.Grows s') : s'.Resolves year o e := by
  obtain ⟨⟨a, ha, hcode⟩, hcategory, hvalue⟩ := hr
  exact ⟨⟨a, getElem?_of_isPrefix h.areas ha, hcode⟩, getElem?_of_isPrefix h.categories hcategory,
    hvalue⟩

/-- Looking observations up adds no facts, and all that are looked up are what they should be. -/
theorem resolve_spec {s : Store} {areas known : Keyed String ℕ} {year : ℤ}
    (ha : s.KnowsAreas areas) (hk : s.KnowsCategories year known) (os : List Observation) :
    s.Grows (s.resolve areas year known os).2 ∧
      ∀ es, (s.resolve areas year known os).1 = .ok es →
        List.Forall₂ ((s.resolve areas year known os).2.Resolves year) os es := by
  -- the numbers of areas are looked up once; the store only grows, so they stay right
  induction os generalizing s known with
  | nil =>
    refine ⟨.refl s, fun es hes => ?_⟩
    obtain rfl := Except.ok.inj hes
    exact .nil
  | cons o rest ih =>
    unfold resolve
    split
    · exact ⟨.refl s, nofun⟩
    · next i hi =>
      obtain ⟨hgrows, hrow, hknown⟩ := categoryId_spec hk o.category
      obtain ⟨hrest, hforall⟩ := ih (ha.grows hgrows) hknown
      obtain ⟨a, harea, hcode⟩ := ha o.area i hi
      dsimp only
      split
      · next e s' heq =>
        rw [heq] at hrest
        exact ⟨hgrows.trans hrest, nofun⟩
      · next es s' heq =>
        rw [heq] at hrest hforall
        refine ⟨hgrows.trans hrest, fun es' hes' => ?_⟩
        obtain rfl := Except.ok.inj hes'
        refine .cons ?_ (hforall es rfl)
        exact ⟨⟨a, getElem?_of_isPrefix (hgrows.trans hrest).areas harea, hcode⟩,
          getElem?_of_isPrefix hrest.categories hrow, rfl⟩

/-- Looking observations up fails just if an area is unknown. -/
theorem resolve_isOk_iff (s : Store) (areas : Keyed String ℕ) (year : ℤ)
    (known : Keyed String ℕ) (os : List Observation) :
    (∃ es, (s.resolve areas year known os).1 = .ok es) ↔
      ∀ o ∈ os, ∃ i, areas.get? o.area = some i := by
  induction os generalizing s known with
  | nil => simp [resolve]
  | cons o rest ih =>
    rw [List.forall_mem_cons]
    unfold resolve
    split
    · next hi => simp [hi]
    · next i hi =>
      rw [← ih (s.categoryId year known o.category).2.2 (s.categoryId year known o.category).2.1]
      dsimp only
      split
      · next e s' heq => simp [heq]
      · next es s' heq => simp [heq, hi]

end Store
end Choropleth
