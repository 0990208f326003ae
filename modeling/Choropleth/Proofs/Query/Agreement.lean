import Choropleth.Engine
import Choropleth.Proofs.Breaks.RowOrder
import Choropleth.Proofs.Query.Columns
import Choropleth.Proofs.Request.Acceptance

/-!
# Tables and breaks of one category

The table of a category in the areas of a type and the breaks of the same category and type are made
in different ways: the table divides every observation as it comes and keeps the last of an area,
the breaks divide the last values of the areas. Where the areas of the type are valid and nothing
limits the queries, both are about the same values.

* `Store.AllValid`, `TableRequest.select_condition`: both queries select the same observations;
* `Engine.IsUnlimited.steady`: what the breaks are made of;
* `MetricSet.quotients`: the values or ratios of a metric set by area, and their other order;
* `classify_agrees_with_table`: the breaks are those of the values in the table.
-/

namespace Choropleth

/-! ### What is selected -/

/-- All areas of a type are valid. -/
def Store.AllValid (s : Store) (t : AreaType) : Prop :=
  ∀ a ∈ s.areas, s.types[a.typeId]? = some t.name → a.valid = true

theorem Store.AllValid.valid_of_mem_rows {s : Store} {t : AreaType} (h : s.AllValid t)
    {row : FactRow} (hrow : row ∈ s.rows) (ht : row.areaType = t.name) : row.valid = true := by
  obtain ⟨f, -, hf⟩ := List.mem_filterMap.1 hrow
  obtain ⟨area, harea, hf⟩ := Option.bind_eq_some_iff.1 hf
  obtain ⟨areaType, htype, hf⟩ := Option.bind_eq_some_iff.1 hf
  obtain ⟨category, -, hf⟩ := Option.bind_eq_some_iff.1 hf
  obtain ⟨release, -, hf⟩ := Option.bind_eq_some_iff.1 hf
  obtain rfl := Option.some.inj hf
  exact h area (List.mem_of_getElem? harea) (ht ▸ htype)

/-- Conditions that denote the same rows of a store select the same observations. -/
theorem Condition.Denotes.select_eq {s : Store} {q q' : Condition} {P Q : FactRow → Prop}
    (hq : q.Denotes P) (hq' : q'.Denotes Q) (h : ∀ row ∈ s.rows, (P row ↔ Q row)) :
    s.select q = s.select q' := by
  have hfilter : s.rows.filter q.accepts = s.rows.filter q'.accepts := by
    refine List.filter_congr fun row hrow => ?_
    rw [Bool.eq_iff_iff, hq.accepts_iff, hq'.accepts_iff, h row hrow]
  rw [Store.select, Store.select, hfilter]

/-- The request for the table of a category in the areas of a type, with nothing else selected. -/
def TableRequest.ofCategory (v : Release) (t : AreaType) (category : String)
    (divideBy : Option String) : TableRequest where
  release := v
  areas := {}
  categories := .ofCodes [category]
  tables := []
  areaTypes := [t]
  zone := none
  divideBy

namespace TableRequest

variable {s : Store} {v : Release} {t : AreaType} {c : String} {d : Option String}

theorem zone_ofCategory : ∀ z ∈ (ofCategory v t c d).zone, ∃ b, z = .box b := by
  rintro z ⟨⟩

theorem asksForArea_ofCategory {row : FactRow} :
    (ofCategory v t c d).AsksForArea row ↔ v.Has row ∧ row.areaType = t.name := by
  constructor
  · rintro ⟨hrelease, -, htypes, -⟩
    exact ⟨hrelease, by simpa [ofCategory] using htypes⟩
  · rintro ⟨hrelease, htype⟩
    exact ⟨hrelease, .inl ⟨rfl, rfl⟩, .inr ⟨t, List.mem_singleton_self t, htype⟩, nofun⟩

theorem asksFor_ofCategory {row : FactRow} : (ofCategory v t c d).AsksFor row ↔
    (v.Has row ∧ row.areaType = t.name) ∧ row.category = c := by
  rw [AsksFor, asksForArea_ofCategory]
  simp [ofCategory, Selection.Allows, Selection.ofCodes, Selection.isEmpty]

theorem asks_iff_of_allValid (hs : s.AllValid t) {row : FactRow} (hrow : row ∈ s.rows) :
    (v.Has row ∧ row.areaType = t.name) ∧ row.category = c ↔
      ((v.Has row ∧ row.valid = true) ∧ row.areaType = t.name) ∧ row.category = c := by
  constructor
  · rintro ⟨⟨hrelease, htype⟩, hcategory⟩
    exact ⟨⟨⟨hrelease, hs.valid_of_mem_rows hrow htype⟩, htype⟩, hcategory⟩
  · rintro ⟨⟨⟨hrelease, -⟩, htype⟩, hcategory⟩
    exact ⟨⟨hrelease, htype⟩, hcategory⟩

/-- The observations of the table are the values of the category. -/
theorem select_condition (hs : s.AllValid t) :
    s.select (ofCategory v t c d).condition = s.select (.forValues v t c) :=
  (denotes_condition zone_ofCategory).select_eq (Condition.denotes_forValues v t c) fun _ hrow =>
    asksFor_ofCategory.trans (asks_iff_of_allValid hs hrow)

/-- The denominators of the table are the values of the category to divide by. -/
theorem select_denominatorCondition (hs : s.AllValid t) {c' : String} {q : Condition}
    (hq : (ofCategory v t c (some c')).denominatorCondition? = some q) :
    s.select q = s.select (.forValues v t c') :=
  (denotes_denominator zone_ofCategory rfl hq).select_eq (Condition.denotes_forValues v t c')
    fun _ hrow => (and_congr_left' asksForArea_ofCategory).trans (asks_iff_of_allValid hs hrow)

end TableRequest

/-! ### What is loaded -/

/-- The values of a category in the valid areas of a type, the last one of every area. -/
def Store.ledger (s : Store) (v : Release) (t : AreaType) (category : String) : Ledger :=
  Ledger.ofObservations (s.select (.forValues v t category))

/-- The metric set of a category in the areas of a type. -/
def Store.metricSet (s : Store) (v : Release) (t : AreaType) (category : String)
    (divideBy : Option String) : MetricSet :=
  ⟨t, category, s.ledger v t category, divideBy.map (s.ledger v t)⟩

theorem Store.isLedger_metricSet (s : Store) (v : Release) (t : AreaType) (c : String)
    (d : Option String) : (s.metricSet v t c d).IsLedger := by
  refine ⟨Ledger.nodup_ofObservations _, fun m hm => ?_⟩
  obtain ⟨c', -, rfl⟩ := Option.map_eq_some_iff.1 hm
  exact Ledger.nodup_ofObservations _

/-- Queries may take any number of observations and any time. -/
structure Engine.IsUnlimited (e : Engine) : Prop where
  ceiling_eq : e.ceiling = 0
  timer_eq : e.timer = Timer.unlimited

namespace Engine.IsUnlimited

variable {e : Engine} (he : e.IsUnlimited)

include he

theorem scanAfter_eq (s : Store) {q : Condition} (hq : q.needsBoundaries = false) (pulls : ℕ) :
    e.scanAfter pulls s q = .ok ((s.select q).map Except.ok) := by
  have htimer : e.timer.after pulls = Timer.unlimited := by rw [he.timer_eq]; rfl
  have hselect : e.select s q = .ok (s.select q) := by rw [Engine.select, hq]; rfl
  rw [scanAfter, hselect, htimer]
  exact congrArg Except.ok (Timer.limit_unlimited _)

/-- The metric sets of a store stay the same and are never cut short. -/
theorem steady (s : Store) : (e.source s).Steady s.ledger where
  load_eq v t c pulls := by
    simp only [source, he.scanAfter_eq s (show (Condition.forValues v t c).needsBoundaries = false
      from rfl), collect, takeIn_ok]
    rfl

theorem reliable (s : Store) : (e.source s).Reliable where
  toNeverFails := (he.steady s).neverFails
  nodup v t c pulls := by
    rw [(he.steady s).load_eq]
    exact Ledger.nodup_ofObservations _

/-- The breaks of one category in one area type are those of its metric set, in whatever order its
maps are walked. -/
theorem exists_classify_eq (s : Store) (v : Release) (t : AreaType) (c : String) (k : ℕ)
    (d : Option String) (arrangements : Arrangements) :
    ∃ m : MetricSet, m.SameMaps (s.metricSet v t c d) ∧
      e.classify s ⟨v, [c], [t], k, d⟩ arrangements =
        (m.verdict k).map fun x => (x.map (Breaks.recordBounds [] (t, c))).getD [] := by
  have hsets : (e.source s).metricSets ⟨v, [c], [t], k, d⟩ 0 = [s.metricSet v t c d] :=
    (he.steady s).metricSets_eq ⟨v, [c], [t], k, d⟩ 0
  have harranged := (he.reliable s).sameMaps_arranged
  have hsame := harranged.metricSets ⟨v, [c], [t], k, d⟩ (s := (0, arrangements)) rfl
  rw [hsets] at hsame
  obtain ⟨m, _, hm, hnil, hsets'⟩ := List.forall₂_cons_right_iff.1 hsame
  obtain rfl := List.forall₂_nil_right_iff.1 hnil
  have hpair : m.pair = (t, c) := congrArg₂ Prod.mk hm.areaType hm.category
  refine ⟨m, hm, ?_⟩
  rw [Engine.classify, classifyArranged, classifyWith_eq_walk harranged.reliable.toNeverFails,
    hsets', MetricSet.walk, hpair]
  rcases m.verdict k with fault | _ | x <;> rfl

end Engine.IsUnlimited

/-! ### Ratios by area -/

namespace MetricSet

variable {k : ℕ} {m : MetricSet} {x : ClassBounds}

/-- The values of a metric set by area, or the ratios to the denominators of the areas. -/
def quotients (m : MetricSet) : Ledger :=
  match m.denominator with
  | none => m.numerator
  | some denominator =>
    Ledger.mapValues (fun area n => n / (denominator.get? area).getD 1) m.numerator

/-- The ratios in the order of the numerators are those in the order of the denominators. -/
theorem values_quotients_perm (hm : m.IsLedger) (h : m.IsGood k) :
    (Ledger.values m.quotients).Perm m.values := by
  obtain ⟨t, c, n, _ | d⟩ := m
  · exact .refl _
  have hn : (n.map Prod.fst).Nodup := hm.1
  have hd : (d.map Prod.fst).Nodup := hm.2 d rfl
  have hsame : n.SameAreas d := h.1.1
  let ratio (area : String) : Float := (n.get? area).getD 0 / (d.get? area).getD 1
  have hleft : Ledger.values (quotients ⟨t, c, n, some d⟩) = (n.map Prod.fst).map ratio := by
    rw [Ledger.values, List.map_map]
    refine List.map_map.trans ?_
    refine List.map_congr_left fun p hp => ?_
    simp [ratio, (Keyed.get?_eq_some_iff hn).2 hp]
  have hright : values ⟨t, c, n, some d⟩ = (d.map Prod.fst).map ratio := by
    rw [values, List.map_map, ← List.filterMap_eq_map]
    refine List.filterMap_congr fun p hp => ?_
    have hmem : p.1 ∈ n.map Prod.fst := (hsame p.1).2 (List.mem_map.2 ⟨p, hp, rfl⟩)
    obtain ⟨y, hy⟩ := Option.isSome_iff_exists.1 (Keyed.isSome_get?_iff.2 hmem)
    simp [ratio, (Keyed.get?_eq_some_iff hd).2 hp, hy]
  rw [hleft, hright]
  exact ((List.perm_ext_iff_of_nodup hn hd).2 hsame).map ratio

/-- Classes are found for values only. -/
theorem exists_classBounds_of_verdict (h : m.verdict k = .ok (some x)) :
    ∃ values, classBounds values k m.areaType m.category = .ok x := by
  have hmap {r : Except QueryError ClassBounds} (hr : r.map some = .ok (some x)) : r = .ok x := by
    cases r with
    | error e => cases hr
    | ok y => exact congrArg Except.ok (Option.some.inj (Except.ok.inj hr))
  obtain ⟨t, c, n, _ | d⟩ := m
  · simp only [verdict] at h
    split at h
    · cases h
    · exact ⟨_, hmap h⟩
  · simp only [verdict] at h
    split at h
    · cases h
    split at h
    · cases h
    split at h
    · cases h
    · exact ⟨_, hmap h⟩

theorem pos_of_verdict (h : m.verdict k = .ok (some x)) : 0 < k := by
  obtain ⟨values, hx⟩ := exists_classBounds_of_verdict h
  by_contra hk
  obtain rfl : k = 0 := Nat.eq_zero_of_not_pos hk
  have hbounds : ∃ e, upperBounds values 0 = .error e := by
    rw [upperBounds, classes, classes?]
    cases values <;> exact ⟨_, rfl⟩
  obtain ⟨e, he⟩ := hbounds
  rw [classBounds, he] at hx
  cases hx

/-- A set with classes is good, and the classes are those of its values. -/
theorem isGood_of_verdict (hm : m.IsLedger) (h : m.verdict k = .ok (some x)) :
    m.IsGood k ∧ x.Describes m.values k := by
  have hk := pos_of_verdict h
  have hgood : m.IsGood k := by
    by_contra hnot
    by_cases hempty : m.IsEmpty
    · rw [verdict_of_isEmpty hempty] at h
      cases h
    · obtain ⟨e, he, -⟩ := verdict_of_not_isGood hk hm hnot hempty
      rw [he] at h
      cases h
  obtain ⟨y, hy, hdescribes⟩ := verdict_of_isGood hk hm hgood
  rw [h] at hy
  obtain rfl := Option.some.inj (Except.ok.inj hy)
  exact ⟨hgood, hdescribes⟩

end MetricSet

theorem ClassBounds.Describes.perm {x : ClassBounds} {xs ys : List Float} {k : ℕ}
    (hx : x.Describes xs k) (h : xs.Perm ys) : x.Describes ys k :=
  ⟨classes?_perm h k ▸ hx.classes, upperBounds_perm h k ▸ hx.bounds, hx.extremes.perm h⟩

/-! ### Tables -/

theorem Store.category_of_mem_select {s : Store} {v : Release} {t : AreaType} {c : String}
    {o : Observation} (ho : o ∈ s.select (.forValues v t c)) : o.category = c := by
  obtain ⟨row, hrow, rfl⟩ := List.mem_map.1 ho
  exact (((Condition.denotes_forValues v t c).accepts_iff row).1 (List.mem_filter.1 hrow).2).2

section

variable {e : Engine} {s : Store} {v : Release} {t : AreaType} {c : String} {d : Option String}

namespace Engine.IsUnlimited

variable (he : e.IsUnlimited) (hs : s.AllValid t)

include he hs

theorem scan_condition_eq (pulls : ℕ) :
    e.scanAfter pulls s (TableRequest.ofCategory v t c d).condition =
      .ok ((s.select (.forValues v t c)).map Except.ok) := by
  rw [← TableRequest.select_condition (d := d) hs]
  exact he.scanAfter_eq s rfl pulls

/-- The values of a category come into its table as they are. -/
theorem table_eq_ofObservations : e.table s (.ofCategory v t c none) =
    .ok (Crosstab.ofObservations (s.select (.forValues v t c))) := by
  have hnone : (TableRequest.ofCategory v t c none).denominatorCondition? = none := rfl
  simp only [Engine.table, hnone, Engine.scan, he.scan_condition_eq hs, he.ceiling_eq]
  exact result_tabulate_ok _

/-- With a category to divide by, they are divided as they come. -/
theorem table_eq_divided (c' : String) : e.table s (.ofCategory v t c (some c')) =
    (tabulate 0 (divided (s.ledger v t c') (TableRequest.ofCategory v t c (some c')).areaTypeLabel
      ((s.select (.forValues v t c)).map Except.ok))).result := by
  obtain ⟨q, hq⟩ : ∃ q, (TableRequest.ofCategory v t c (some c')).denominatorCondition? = some q :=
    ⟨_, rfl⟩
  have hboundaries : q.needsBoundaries = false := by
    obtain rfl := Option.some.inj hq
    rfl
  have hscan : e.scanAfter 0 s q = .ok ((s.select (.forValues v t c')).map Except.ok) := by
    rw [← TableRequest.select_denominatorCondition hs hq]
    exact he.scanAfter_eq s hboundaries 0
  have hcollect : collect 0 [] ((s.select (.forValues v t c')).map Except.ok) =
      ⟨s.ledger v t c', none, (s.select (.forValues v t c')).length⟩ := takeIn_ok _ _ _
  simp only [Engine.table, hq, Engine.scan, hscan, he.scan_condition_eq hs, he.ceiling_eq]
  simp only [bind, Except.bind, hcollect]
  rfl

/-- The table of a category has the values of its metric set. -/
theorem table_eq {k : ℕ} (h : (s.metricSet v t c d).IsGood k) :
    e.table s (.ofCategory v t c d) =
      .ok (Crosstab.column c (s.metricSet v t c d).quotients) := by
  have hcategory : ∀ o ∈ s.select (.forValues v t c), o.category = c := fun o ho =>
    Store.category_of_mem_select ho
  cases d with
  | none => rw [he.table_eq_ofObservations hs, Crosstab.ofObservations_eq_column hcategory]; rfl
  | some c' =>
    have hsame : (s.ledger v t c).SameAreas (s.ledger v t c') := h.1.1
    have hzero : ∀ p ∈ s.ledger v t c', (p.2 == 0) = false := h.1.2
    -- the area of an observation is one of the numerators, and so it has a denominator
    have hfound : ∀ o ∈ s.select (.forValues v t c),
        ∃ y, (s.ledger v t c').get? o.area = some y ∧ (y == 0) = false := by
      intro o ho
      have harea : o.area ∈ (s.ledger v t c').map Prod.fst :=
        (hsame o.area).1 (Ledger.mem_areas_ofObservations.2 ⟨o, ho, rfl⟩)
      obtain ⟨y, hy⟩ := Option.isSome_iff_exists.1 (Keyed.isSome_get?_iff.2 harea)
      exact ⟨y, hy, hzero (o.area, y) (Keyed.mem_of_get? hy)⟩
    let ratio (area : String) (n : Float) : Float := n / ((s.ledger v t c').get? area).getD 1
    let quotient (o : Observation) : Observation := { o with value := ratio o.area o.value }
    have hratios : ∀ o ∈ (s.select (.forValues v t c)).map quotient, o.category = c := by
      intro o ho
      obtain ⟨p, hp, hpo⟩ := List.mem_map.1 ho
      rw [← hpo]
      exact hcategory p hp
    rw [he.table_eq_divided hs, divided_ok _ hfound, result_tabulate_ok,
      Crosstab.ofObservations_eq_column hratios, Ledger.ofObservations_map ratio]
    rfl

end Engine.IsUnlimited

/-- **The table and the breaks of a category agree.** If the breaks of one category in one area type
are not empty, the table of the same category and type has that category as its only column and a
value in every row; the breaks have the upper bounds, the least and the greatest of these values,
in whatever order the maps are walked. -/
theorem classify_agrees_with_table (he : e.IsUnlimited) (hs : s.AllValid t) {k : ℕ} {b : Breaks}
    {arrangements : Arrangements} (hb : e.classify s ⟨v, [c], [t], k, d⟩ arrangements = .ok b)
    (hne : b ≠ []) :
    ∃ (table : Crosstab) (values : List Float) (x : ClassBounds),
      e.table s (.ofCategory v t c d) = .ok table ∧ table.categories = [c] ∧
        table.areas.length = values.length ∧
        (∀ row, table.cells.get? (row, 0) = values[row]?) ∧ x.Describes values k ∧
        b.numbers? c t.name = some x.bounds ∧
        b.numbers? c (Breaks.extremesKey t) = some [x.least, x.greatest] := by
  obtain ⟨m, hm, hclassify⟩ := he.exists_classify_eq s v t c k d arrangements
  rw [hclassify] at hb
  rcases hv : m.verdict k with fault | _ | x
  · rw [hv] at hb
    cases hb
  · rw [hv] at hb
    exact absurd (Except.ok.inj hb).symm hne
  rw [hv] at hb
  obtain rfl : b = Breaks.recordBounds [] (t, c) x := (Except.ok.inj hb).symm
  -- the set as the table has it is good as well, and its ratios are the same
  have hledger := s.isLedger_metricSet v t c d
  obtain ⟨y, hy⟩ := hm.exists_verdict hv
  have hgood := (MetricSet.isGood_of_verdict hledger hy).1
  have hdescribes := (MetricSet.isGood_of_verdict hm.isLedger hv).2
  have hperm := hm.values_perm.trans (MetricSet.values_quotients_perm hledger hgood).symm
  have hquotients : (s.metricSet v t c d).quotients ≠ [] := by
    intro hnil
    rw [hnil] at hperm
    exact absurd hdescribes.extremes.least_mem (by simp [hperm.eq_nil])
  refine ⟨_, _, x, he.table_eq hs hgood, by simp [Crosstab.column, hquotients],
    by simp [Crosstab.column], Crosstab.get?_cells_column c _, hdescribes.perm hperm, ?_, ?_⟩
  · rw [Breaks.numbers?_recordBounds, if_pos rfl, Breaks.field_name, Option.some_or]
  · rw [Breaks.numbers?_recordBounds, if_pos rfl, Breaks.field_extremesKey, Option.some_or]

end

/-- A store of two areas, in one of which the category to divide by was counted twice. -/
def twoAreas : Store where
  types := ["LAD"]
  areas :=
    [⟨0, "E06", none, none, true, none, none, none⟩, ⟨0, "E07", none, none, true, none, none, none⟩]
  categories := [⟨"Z", 2011⟩, ⟨"T", 2011⟩]
  releases := [{}]
  facts := [⟨0, 0, 0, 3⟩, ⟨1, 0, 0, 1⟩, ⟨1, 1, 0, 5⟩, ⟨0, 1, 0, 4⟩, ⟨1, 1, 0, 2⟩]

/-- The ratios 3/4 and 1/2 are in the table, and their classes in the breaks. -/
theorem classify_agrees_with_table_of_two_areas :
    let e : Engine := {}
    e.IsUnlimited ∧ twoAreas.AllValid .district ∧
      ∃ b table, e.classify twoAreas ⟨{}, ["Z"], [.district], 1, some "T"⟩ .asTheyCome = .ok b ∧
        b ≠ [] ∧ e.table twoAreas (.ofCategory {} .district "Z" (some "T")) = .ok table ∧
        table.categories = ["Z"] := by
  intro e
  have he : e.IsUnlimited := ⟨rfl, rfl⟩
  have hs : twoAreas.AllValid .district := by
    simp [Store.AllValid, twoAreas]
  have hset : twoAreas.metricSet {} .district "Z" (some "T") =
      ⟨.district, "Z", [("E06", 3), ("E07", 1)], some [("E07", 2), ("E06", 4)]⟩ := by
    rfl
  have hgood : (twoAreas.metricSet {} .district "Z" (some "T")).IsGood 1 := by
    rw [hset]
    refine ⟨⟨fun area => ?_, by decide⟩, by decide, by decide⟩
    simp [or_comm]
  obtain ⟨x, hx, -⟩ := MetricSet.verdict_of_isGood Nat.one_pos
    (twoAreas.isLedger_metricSet {} .district "Z" (some "T")) hgood
  obtain ⟨m, hm, hclassify⟩ :=
    he.exists_classify_eq twoAreas {} .district "Z" 1 (some "T") .asTheyCome
  obtain ⟨y, hy⟩ := hm.symm.exists_verdict hx
  have hb : e.classify twoAreas ⟨{}, ["Z"], [.district], 1, some "T"⟩ .asTheyCome =
      .ok (Breaks.recordBounds [] (.district, "Z") y) := by
    rw [hclassify, hy]
    rfl
  have hne : Breaks.recordBounds [] (.district, "Z") y ≠ [] := nofun
  obtain ⟨table, values, z, htable, hcategories, -⟩ := classify_agrees_with_table he hs hb hne
  exact ⟨he, hs, _, table, hb, hne, htable, hcategories⟩

end Choropleth
