import Choropleth.Proofs.Geometry.Grammar
import Choropleth.Proofs.Selection.Parsing
import Choropleth.Request.Breaks
import Choropleth.Request.Table

/-!
# Accepted requests

* `TableRequest.Accepted`, `BreaksRequest.Accepted`: requests that are read from some parameters;
* `TableRequest.ofParams_eq_ok`, `BreaksRequest.ofParams_eq_ok`: what the parameters of a request
  are;
* `TableRequest.Accepted.wellFormed`, `BreaksRequest.Accepted.wellFormed`: their codes, ranges and
  zones are well formed;
* `TableRequest.Accepted.withAreas`, `TableRequest.Accepted.withCategories`: any well-formed
  selection can stand in for another one.
-/

namespace Choropleth

/-! ### Parameters -/

namespace Params

theorem mem_of_first? {params : Params} {name v : String} (h : params.first? name = some v) :
    v ≠ "" := by
  simpa using List.find?_some h

theorem all_eq_allOf (params : Params) (name : String) : params.all name = params.allOf [name] := by
  simp [all, allOf]

/-- The parameters with the given values of `name` in place of all values of `names`. -/
def replace (params : Params) (names : List String) (name : String) (values : List String) :
    Params :=
  params.filter (fun p => p.1 ∉ names) ++ values.map fun v => (name, v)

theorem allOf_replace (params : Params) {names : List String} {name : String} (h : name ∈ names)
    (values : List String) : (params.replace names name values).allOf names = values := by
  have hout : (params.filter fun p => p.1 ∉ names).filter (fun p => p.1 ∈ names) = [] := by
    simp
  have hin : (values.map fun v => (name, v)).filter (fun p => p.1 ∈ names) =
      values.map fun v => (name, v) := by
    simp [List.filter_eq_self, h]
  rw [allOf, replace, List.filter_append, hout, hin]
  simp

theorem allOf_replace_of_disjoint (params : Params) {names others : List String} {name : String}
    (h : name ∈ names) (hd : ∀ n ∈ others, n ∉ names) (values : List String) :
    (params.replace names name values).allOf others = params.allOf others := by
  have hkeep : (params.filter fun p => p.1 ∉ names).filter (fun p => p.1 ∈ others) =
      params.filter fun p => p.1 ∈ others := by
    rw [List.filter_filter]
    refine List.filter_congr fun p _ => ?_
    by_cases hp : p.1 ∈ others
    · simp [hp, hd p.1 hp]
    · simp [hp]
  have hdrop : (values.map fun v => (name, v)).filter (fun p => p.1 ∈ others) = [] := by
    have : name ∉ others := fun ho => hd name ho h
    simp [List.filter_eq_nil_iff, this]
  rw [allOf, replace, List.filter_append, hkeep, hdrop, List.append_nil, allOf]

theorem first?_replace_of_not_mem (params : Params) {names : List String} {name other : String}
    (h : name ∈ names) (hd : other ∉ names) (values : List String) :
    (params.replace names name values).first? other = params.first? other := by
  rw [first?, first?, all_eq_allOf, all_eq_allOf, allOf_replace_of_disjoint params h (by simpa)]

end Params

theorem isCode_of_parseCodes {values : List String} {param : String} {cs : List String}
    (h : parseCodes values param = .ok cs) : ∀ c ∈ cs, IsCode c.toList := by
  rw [parseCodes, Outcome.bind_eq_ok] at h
  obtain ⟨s, hs, h⟩ := h
  rw [codesOnly, Outcome.guard_eq_ok] at h
  obtain rfl := Except.ok.inj h.2
  exact (Selection.wellFormed_of_parse hs).codes

/-! ### Requests for tables -/

namespace TableRequest

/-- The request is read from some parameters. -/
def Accepted (r : TableRequest) : Prop :=
  ∃ release params, ofParams release params = .ok r

theorem ofParams_eq_ok {release : Release} {params : Params} {r : TableRequest} :
    ofParams release params = .ok r ↔
      Selection.parse (params.allOf ["rows", "geocode"]) = .ok r.areas ∧
        Selection.parse (params.allOf ["cols", "cat"]) = .ok r.categories ∧
          parseCodes (params.all "censustable") "censustable" = .ok r.tables ∧
            parseAreaTypes (params.all "geotype") = .ok r.areaTypes ∧
              zoneOfParams params = .ok r.zone ∧ params.first? "divide_by" = r.divideBy ∧
                release = r.release ∧ r.isSelective = true := by
  simp only [ofParams, Outcome.bind_eq_ok]
  constructor
  · rintro ⟨areas, hareas, categories, hcategories, tables, htables, types, htypes, zone, hzone, h⟩
    split at h
    · next hs =>
      obtain rfl := Outcome.pure_eq_ok.1 h
      exact ⟨hareas, hcategories, htables, htypes, hzone, rfl, rfl, hs⟩
    · cases h
  · rintro ⟨hareas, hcategories, htables, htypes, hzone, hdivide, rfl, hs⟩
    refine ⟨_, hareas, _, hcategories, _, htables, _, htypes, _, hzone, ?_⟩
    rw [hdivide, if_pos hs]
    rfl

/-- The codes, ranges and numbers of the request are of the form that reading gives them. -/
structure WellFormed (r : TableRequest) : Prop where
  areas : r.areas.WellFormed
  categories : r.categories.WellFormed
  tables : ∀ t ∈ r.tables, IsCode t.toList
  zone : ∀ z ∈ r.zone, z.IsFinite
  divideBy : ∀ c ∈ r.divideBy, c ≠ ""

theorem Accepted.wellFormed {r : TableRequest} (h : r.Accepted) : r.WellFormed := by
  obtain ⟨release, params, h⟩ := h
  obtain ⟨hareas, hcategories, htables, -, hzone, hdivide, -, -⟩ := ofParams_eq_ok.1 h
  refine ⟨Selection.wellFormed_of_parse hareas, Selection.wellFormed_of_parse hcategories,
    isCode_of_parseCodes htables, ?_, fun c hc => ?_⟩
  · unfold zoneOfParams at hzone
    split at hzone
    · next z hz =>
      obtain rfl := Except.ok.inj hzone
      exact isFinite_of_parseZone hz
    · cases hzone
  · exact Params.mem_of_first? (hdivide.trans hc)

theorem zoneOfParams_replace (params : Params) {names : List String} {name : String}
    (h : name ∈ names) (hd : ∀ n ∈ ["bbox", "location", "radius", "polygon"], n ∉ names)
    (values : List String) :
    zoneOfParams (params.replace names name values) = zoneOfParams params := by
  have hfirst (n : String) (hn : n ∈ ["bbox", "location", "radius", "polygon"]) :=
    params.first?_replace_of_not_mem h (hd n hn) values
  simp only [zoneOfParams, zoneParams]
  rw [hfirst _ (by decide), hfirst _ (by decide), hfirst _ (by decide), hfirst _ (by decide)]

/-- Any well-formed selection of areas can stand in for the one of a request. -/
theorem Accepted.withAreas {r : TableRequest} (h : r.Accepted) {s : Selection} (hs : s.WellFormed)
    (hempty : s.isEmpty = r.areas.isEmpty) : { r with areas := s }.Accepted := by
  obtain ⟨release, params, h⟩ := h
  obtain ⟨-, hcategories, htables, htypes, hzone, hdivide, hrelease, hselective⟩ :=
    ofParams_eq_ok.1 h
  have hname : "rows" ∈ ["rows", "geocode"] := List.mem_cons_self
  have hother {others : List String} (hd : ∀ n ∈ others, n ∉ ["rows", "geocode"]) :=
    params.allOf_replace_of_disjoint hname hd s.written
  refine ⟨release, params.replace ["rows", "geocode"] "rows" s.written, ofParams_eq_ok.2 ?_⟩
  rw [Params.all_eq_allOf] at htables htypes ⊢
  rw [Params.allOf_replace params hname, hother (by decide), hother (by decide),
    Params.all_eq_allOf, hother (by decide), zoneOfParams_replace params hname (by decide),
    params.first?_replace_of_not_mem hname (by decide)]
  refine ⟨Selection.parse_written hs, hcategories, htables, htypes, hzone, hdivide, hrelease, ?_⟩
  rw [← hselective]
  simp only [isSelective, hempty]

/-- Any well-formed selection of categories can stand in for the one of a request. -/
theorem Accepted.withCategories {r : TableRequest} (h : r.Accepted) {s : Selection}
    (hs : s.WellFormed) (hempty : s.isEmpty = r.categories.isEmpty) :
    { r with categories := s }.Accepted := by
  obtain ⟨release, params, h⟩ := h
  obtain ⟨hareas, -, htables, htypes, hzone, hdivide, hrelease, hselective⟩ :=
    ofParams_eq_ok.1 h
  have hname : "cols" ∈ ["cols", "cat"] := List.mem_cons_self
  have hother {others : List String} (hd : ∀ n ∈ others, n ∉ ["cols", "cat"]) :=
    params.allOf_replace_of_disjoint hname hd s.written
  refine ⟨release, params.replace ["cols", "cat"] "cols" s.written, ofParams_eq_ok.2 ?_⟩
  rw [Params.all_eq_allOf] at htables htypes ⊢
  rw [Params.allOf_replace params hname, hother (by decide), hother (by decide),
    Params.all_eq_allOf, hother (by decide), zoneOfParams_replace params hname (by decide),
    params.first?_replace_of_not_mem hname (by decide)]
  refine ⟨hareas, Selection.parse_written hs, htables, htypes, hzone, hdivide, hrelease, ?_⟩
  rw [← hselective]
  simp only [isSelective, hempty]

end TableRequest

/-! ### Requests for classes -/

namespace BreaksRequest

/-- The request is read from some parameters. -/
def Accepted (r : BreaksRequest) : Prop :=
  ∃ release params, ofParams release params = .ok r

theorem ofParams_eq_ok {release : Release} {params : Params} {r : BreaksRequest} :
    ofParams release params = .ok r ↔
      parseCodes (params.all "cat") "cat" = .ok r.categories ∧ r.categories ≠ [] ∧
        parseAreaTypes (params.all "geotype") = .ok r.areaTypes ∧ r.areaTypes ≠ [] ∧
          classesOfParam (params.first? "k") = .ok r.classes ∧
            params.first? "divide_by" = r.divideBy ∧ release = r.release := by
  constructor
  · intro h
    obtain ⟨categories, hcategories, h⟩ := Outcome.bind_eq_ok.1 h
    split at h
    · cases h
    next hc =>
    obtain ⟨types, htypes, h⟩ := Outcome.bind_eq_ok.1 h
    split at h
    · cases h
    next ht =>
    obtain ⟨classes, hclasses, h⟩ := Outcome.bind_eq_ok.1 h
    obtain rfl := Outcome.pure_eq_ok.1 h
    exact ⟨hcategories, by simpa using hc, htypes, by simpa using ht, hclasses, rfl, rfl⟩
  · rintro ⟨hcategories, hc, htypes, ht, hclasses, hdivide, rfl⟩
    refine Outcome.bind_eq_ok.2 ⟨_, hcategories, ?_⟩
    rw [if_neg (by simpa using hc)]
    refine Outcome.bind_eq_ok.2 ⟨_, htypes, ?_⟩
    rw [if_neg (by simpa using ht)]
    refine Outcome.bind_eq_ok.2 ⟨_, hclasses, ?_⟩
    rw [hdivide]
    rfl

theorem Accepted.areaTypes_ne_nil {r : BreaksRequest} (h : r.Accepted) : r.areaTypes ≠ [] := by
  obtain ⟨release, params, h⟩ := h
  exact (ofParams_eq_ok.1 h).2.2.2.1

theorem Accepted.classes_pos {r : BreaksRequest} (h : r.Accepted) : 0 < r.classes := by
  obtain ⟨release, params, h⟩ := h
  obtain ⟨-, -, -, -, hclasses, -⟩ := ofParams_eq_ok.1 h
  unfold classesOfParam at hclasses
  split at hclasses
  · cases hclasses
  split at hclasses
  · cases hclasses
  · next n hne _ => exact Except.ok.inj hclasses ▸ Nat.pos_of_ne_zero hne
  · cases hclasses

/-- The codes of the request are of the form that reading gives them. -/
structure WellFormed (r : BreaksRequest) : Prop where
  categories : ∀ c ∈ r.categories, IsCode c.toList
  divideBy : ∀ c ∈ r.divideBy, c ≠ ""

theorem Accepted.wellFormed {r : BreaksRequest} (h : r.Accepted) : r.WellFormed := by
  obtain ⟨release, params, h⟩ := h
  obtain ⟨hcategories, -, -, -, -, hdivide, -⟩ := ofParams_eq_ok.1 h
  exact ⟨isCode_of_parseCodes hcategories, fun c hc => Params.mem_of_first? (hdivide.trans hc)⟩

end BreaksRequest
end Choropleth
