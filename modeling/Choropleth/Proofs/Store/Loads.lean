import Choropleth.Proofs.Condition.Denotes
import Choropleth.Proofs.Store.Growth

/-!
# What loads leave behind

Whatever is loaded into an empty store, in whatever order and with whatever failures, the store
stays consistent. A query for a release finds the observations of the loads for this release that
succeeded, all of them and nothing else.

* `Store.addObservations_stored`, `Store.addObservations_failed`: one load of observations;
* `Load`, `Load.run`, `Load.runAll`: loads one after the other;
* `Load.stores`, `Load.storesAll`: the observations that loads store for a release;
* `loads_keep_observations`: what a query for a release finds.
-/

namespace Choropleth

/-- The release of a row is determined by the row. -/
theorem Release.eq_of_has {v w : Release} {row : FactRow} (hv : v.Has row) (hw : w.Has row) :
    v = w := by
  cases v
  cases w
  rw [Release.mk.injEq]
  exact ⟨hv.1.symm.trans hw.1, hv.2.1.symm.trans hw.2.1⟩

namespace Store

/-! ### Loads of observations -/

/-- The entry stands for an observation of the release. -/
def StandsFor (s : Store) (r : Release) (o : Observation) (f : FactEntry) : Prop :=
  s.Refers f ∧ ∃ row, s.row? f = some row ∧ row.toObservation = o ∧ r.Has row

/-- An observation that has been looked up becomes an entry that stands for it. -/
theorem standsFor_entry {s : Store} (hs : s.Consistent) {r : Release} {releaseId : ℕ}
    (hrelease : s.releases[releaseId]? = some r) {o : Observation} {e : Resolved}
    (he : s.Resolves r.year o e) : s.StandsFor r o (e.entry releaseId) := by
  obtain ⟨⟨a, harea, hcode⟩, hcategory, hvalue⟩ := he
  obtain ⟨t, ht⟩ := hs.areaTypes a (List.mem_of_getElem? harea)
  obtain ⟨row, hrow, hobservation, hyear, hrest⟩ :=
    exists_row? (f := e.entry releaseId) harea ht hcategory hrelease
  refine ⟨⟨a, t, _, r, harea, ht, hcategory, hrelease, rfl⟩, row, hrow, ?_, hrest.1, hrest.2,
    hyear⟩
  rw [hobservation, hcode]
  show (⟨o.area, o.category, e.value⟩ : Observation) = o
  rw [hvalue]

/-- A load that fails adds no facts. -/
theorem addObservations_failed {s s' : Store} {r : Release} {os : List Observation}
    {e : StoreError} (h : s.addObservations r os = (.error e, s')) : s.Grows s' := by
  obtain ⟨hgrows, -⟩ := s.ensureRelease_spec r
  unfold addObservations at h
  split at h
  · cases h
  · dsimp only at h
    split at h
    · next e' t heq =>
      have hresolve := (resolve_spec (knowsAreas_areaIds (s.ensureRelease r).2)
        (knowsCategories_nil _ r.year) os).1
      rw [heq] at hresolve
      cases h
      exact hgrows.trans hresolve
    · cases h

/-- A load that succeeds adds an entry for every observation. -/
theorem addObservations_stored {s s' : Store} {r : Release} {os : List Observation} {n : ℕ}
    (hs : s.Consistent) (h : s.addObservations r os = (.ok n, s')) :
    n = os.length ∧ ∃ t fs, s.Grows t ∧ s' = { t with facts := t.facts ++ fs } ∧
      List.Forall₂ (t.StandsFor r) os fs := by
  obtain ⟨hgrows, hrelease⟩ := s.ensureRelease_spec r
  unfold addObservations at h
  split at h
  · next hempty =>
    cases h
    obtain rfl := List.isEmpty_iff.1 hempty
    exact ⟨rfl, s, [], .refl s, by simp, .nil⟩
  · dsimp only at h
    split at h
    · cases h
    · next es t heq =>
      obtain ⟨hresolve, hforall⟩ := resolve_spec (knowsAreas_areaIds (s.ensureRelease r).2)
        (knowsCategories_nil _ r.year) os
      rw [heq] at hresolve hforall
      have hforall := hforall es rfl
      have ht : t.Consistent := (hgrows.trans hresolve).consistent hs
      -- the release has kept its number while categories were added
      have hreleases := getElem?_of_isPrefix hresolve.releases hrelease
      rw [insertChunks_eq, flatten_chunks] at h
      cases h
      refine ⟨hforall.length_eq.symm, t, _, hgrows.trans hresolve, rfl, ?_⟩
      rw [List.forall₂_map_right_iff]
      exact hforall.imp fun o e he => standsFor_entry ht hreleases he

/-- A load of observations succeeds just if all areas are known. -/
theorem addObservations_isOk_iff (s : Store) (r : Release) (os : List Observation) :
    (∃ n, (s.addObservations r os).1 = .ok n) ↔
      ∀ o ∈ os, o.area ∈ s.areas.map AreaRow.code := by
  have hknown (o : Observation) : (∃ i, (s.ensureRelease r).2.areaIds.get? o.area = some i) ↔
      o.area ∈ s.areas.map AreaRow.code := by
    constructor
    · rintro ⟨i, hi⟩
      obtain ⟨a, ha, hcode⟩ := knowsAreas_areaIds _ o.area i hi
      exact List.mem_map.2 ⟨a, List.mem_of_getElem? ha, hcode⟩
    · intro hmem
      by_contra hnone
      refine areaIds_eq_none (s := (s.ensureRelease r).2) ?_ hmem
      simpa [Option.eq_none_iff_forall_ne_some] using hnone
  have hresolve := (s.ensureRelease r).2.resolve_isOk_iff (s.ensureRelease r).2.areaIds r.year [] os
  simp only [hknown] at hresolve
  rw [← hresolve]
  unfold addObservations
  split
  · next hempty =>
    obtain rfl := List.isEmpty_iff.1 hempty
    simp [resolve]
  · dsimp only
    split
    · next heq => simp [heq]
    · next heq => simp [heq]

/-! ### Queries for a release -/

theorem refers_of_standsFor {s : Store} {r : Release} {os : List Observation}
    {fs : List FactEntry} (h : List.Forall₂ (s.StandsFor r) os fs) : ∀ f ∈ fs, s.Refers f := by
  induction h with
  | nil => simp
  | cons hof _ ih => exact List.forall_mem_cons.2 ⟨hof.1, ih⟩

/-- A query for a release finds what the entries of the release stand for. -/
theorem select_standsFor {s : Store} {r : Release} {os : List Observation} {fs : List FactEntry}
    (h : List.Forall₂ (s.StandsFor r) os fs) (v : Release) :
    ((fs.filterMap s.row?).filter (Condition.forRelease v).accepts).map FactRow.toObservation =
      if r = v then os else [] := by
  induction h with
  | nil => simp
  | @cons o f os fs hof _ ih =>
    -- an entry is found by the query for its own release, and by no other
    obtain ⟨-, row, hrow, rfl, hhas⟩ := hof
    have haccepts := (Condition.denotes_forRelease v).accepts_iff row
    rw [List.filterMap_cons_some hrow]
    by_cases hv : r = v
    · subst hv
      rw [if_pos rfl] at ih ⊢
      rw [List.filter_cons_of_pos (haccepts.2 hhas), List.map_cons, ih]
    · rw [if_neg hv] at ih ⊢
      rw [List.filter_cons_of_neg, ih]
      intro hother
      exact hv (Release.eq_of_has hhas (haccepts.1 hother))

theorem Grows.select_eq {s s' : Store} (h : s.Grows s') (hs : s.Consistent) (q : Condition) :
    s'.select q = s.select q := by
  rw [select, select, h.rows_eq hs]

/-- A load that succeeds keeps the store consistent, and a query for its release finds its
observations in addition to what it found before. -/
theorem addObservations_spec {s s' : Store} {r : Release} {os : List Observation} {n : ℕ}
    (hs : s.Consistent) (h : s.addObservations r os = (.ok n, s')) :
    s'.Consistent ∧ ∀ v, s'.select (Condition.forRelease v) =
      s.select (Condition.forRelease v) ++ if r = v then os else [] := by
  obtain ⟨-, t, fs, hgrows, rfl, hforall⟩ := addObservations_stored hs h
  have ht := hgrows.consistent hs
  constructor
  · refine ⟨ht.types, ht.areas, ht.categories, ht.releases, ht.areaTypes, fun f hf => ?_⟩
    rcases List.mem_append.1 hf with hf | hf
    · exact ht.facts f hf
    · exact refers_of_standsFor hforall f hf
  · intro v
    have hrows : { t with facts := t.facts ++ fs }.rows = t.rows ++ fs.filterMap t.row? :=
      List.filterMap_append
    rw [select, hrows, List.filter_append, List.map_append, select_standsFor hforall v,
      ← hgrows.select_eq hs]
    rfl

end Store

/-! ### Loads one after the other -/

/-- What can be loaded into a store. -/
inductive Load
  /-- An area type. -/
  | areaType (t : AreaType)
  /-- A category of a census year. -/
  | category (code : String) (year : ℤ)
  /-- A release without observations. -/
  | release (r : Release)
  /-- Areas. -/
  | areas (records : List AreaRecord)
  /-- Observations of a release. -/
  | observations (r : Release) (os : List Observation)

namespace Load

/-- The store after a load, whether it fails or not. -/
def run (s : Store) : Load → Store
  | areaType t => (s.ensureType t).2
  | category code year => (s.ensureCategory code year).2
  | release r => (s.ensureRelease r).2
  | areas records => (s.addAreas records).2
  | observations r os => (s.addObservations r os).2

/-- The observations that a load stores for a release: all of them if it succeeds. -/
def stores (s : Store) (v : Release) : Load → List Observation
  | observations r os =>
    if r = v then
      match (s.addObservations r os).1 with
      | .ok _ => os
      | .error _ => []
    else []
  | _ => []

/-- The store after loads one after the other. -/
def runAll (s : Store) (ls : List Load) : Store := ls.foldl run s

/-- The observations that loads one after the other store for a release. -/
def storesAll (s : Store) (v : Release) : List Load → List Observation
  | [] => []
  | l :: ls => l.stores s v ++ storesAll (l.run s) v ls

/-- **One load.** The store stays consistent, and a query for a release finds what it found before
and what the load stores. -/
theorem run_spec {s : Store} (hs : s.Consistent) (l : Load) :
    (l.run s).Consistent ∧ ∀ v, (l.run s).select (Condition.forRelease v) =
      s.select (Condition.forRelease v) ++ l.stores s v := by
  have hgrows {s' : Store} (h : s.Grows s') : s'.Consistent ∧ ∀ v,
      s'.select (Condition.forRelease v) = s.select (Condition.forRelease v) ++ [] := by
    refine ⟨h.consistent hs, fun v => ?_⟩
    rw [h.select_eq hs, List.append_nil]
  cases l with
  | areaType t => exact hgrows (s.ensureType_spec t).1
  | category code year => exact hgrows (s.ensureCategory_spec code year).1
  | release r => exact hgrows (s.ensureRelease_spec r).1
  | areas records => exact hgrows (s.grows_addAreas records)
  | observations r os =>
    -- what is stored depends on how the load ends
    simp only [run, stores]
    rcases h : s.addObservations r os with ⟨e | n, s'⟩
    · simpa using hgrows (Store.addObservations_failed h)
    · exact Store.addObservations_spec hs h

/-- **Loads one after the other.** -/
theorem runAll_spec {s : Store} (hs : s.Consistent) (ls : List Load) :
    (runAll s ls).Consistent ∧ ∀ v, (runAll s ls).select (Condition.forRelease v) =
      s.select (Condition.forRelease v) ++ storesAll s v ls := by
  induction ls generalizing s with
  | nil => exact ⟨hs, fun v => (List.append_nil _).symm⟩
  | cons l ls ih =>
    obtain ⟨hstep, hselect⟩ := run_spec hs l
    obtain ⟨hrest, hselects⟩ := ih hstep
    refine ⟨hrest, fun v => ?_⟩
    show (runAll (l.run s) ls).select _ = _
    rw [hselects v, hselect v, storesAll, List.append_assoc]

end Load

/-- **A store neither loses nor duplicates nor leaks observations.** Whatever has been loaded into
an empty store, successfully or not: names, codes, categories and releases are unique and every
fact has what it refers to; a query for a release finds just the observations of the successful
loads for it, as often as they were loaded; and a load of observations that fails changes no such
query, fails just for an unknown area, and otherwise stores as many observations as it is given. -/
theorem loads_keep_observations (ls : List Load) :
    (Load.runAll {} ls).Consistent ∧
      (∀ v, List.Perm ((Load.runAll {} ls).select (Condition.forRelease v))
        (Load.storesAll {} v ls)) ∧
        ∀ r os, let s := Load.runAll {} ls
          ((∃ n, (s.addObservations r os).1 = .ok n) ↔
            ∀ o ∈ os, o.area ∈ s.areas.map AreaRow.code) ∧
            (∀ n, (s.addObservations r os).1 = .ok n → n = os.length) ∧
              ∀ e, (s.addObservations r os).1 = .error e → ∀ v,
                (s.addObservations r os).2.select (Condition.forRelease v) =
                  s.select (Condition.forRelease v) := by
  obtain ⟨hconsistent, hselect⟩ := Load.runAll_spec Store.consistent_empty ls
  refine ⟨hconsistent, fun v => ?_, fun r os => ⟨?_, fun n hn => ?_, fun e he v => ?_⟩⟩
  · rw [hselect v]
    rfl
  · exact Store.addObservations_isOk_iff _ r os
  · exact (Store.addObservations_stored hconsistent (Prod.ext hn rfl)).1
  · exact (Store.addObservations_failed (Prod.ext he rfl)).select_eq hconsistent _

end Choropleth
