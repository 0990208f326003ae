import Choropleth.Proofs.Breaks.Reordering
import Choropleth.Proofs.Clustering.Values

/-!
# All or nothing

A classification gives the classes of all metric sets of its request, or none at all. The first set
that is not good decides: without data the table stays empty, otherwise there is an error that names
the set.

* `Source.Reliable`: a source that never fails and gives every area one value;
* `MetricSet.values`, `MetricSet.IsGood`: the values or ratios of a set, and when they have classes;
* `Ledger.sameAreas_iff`: ledgers of the same areas, by counting;
* `ratios_cases`, `classBounds_cases`: how dividing and clustering end;
* `classify_all_or_nothing`: how a classification ends.
-/

namespace Choropleth

/-- The source never fails, and it gives no area two values. -/
structure Source.Reliable {σ : Type} (source : Source σ) : Prop extends source.NeverFails where
  nodup : ∀ v t c s, ((source.load v t c [] s).1.ledger.map Prod.fst).Nodup

/-- The error names an area type and a category. -/
def QueryError.Names (e : QueryError) (t : AreaType) (category : String) : Prop :=
  match e with
  | .partialContent name c _ => name = t.name ∧ c = category
  | .zeroDenominator name c _ => name = t.name ∧ c = category
  | .clustering name c _ => name = t.name ∧ c = category
  | _ => False

/-- The error says that an area has no ratio. -/
def QueryError.IsRatioFault (e : QueryError) (t : AreaType) (category : String) : Prop :=
  ∃ area, e = .partialContent t.name category (some area) ∨ e = .zeroDenominator t.name category area

theorem QueryError.IsRatioFault.names {e : QueryError} {t : AreaType} {category : String}
    (h : e.IsRatioFault t category) : e.Names t category := by
  obtain ⟨area, rfl | rfl⟩ := h <;> exact ⟨rfl, rfl⟩

/-! ### Good metric sets -/

/-- The ledgers have values of the same areas. -/
def Ledger.SameAreas (m n : Ledger) : Prop :=
  ∀ area, area ∈ m.map Prod.fst ↔ area ∈ n.map Prod.fst

/-- As many areas, all of which are found, are the same areas. -/
theorem Ledger.sameAreas_iff {m n : Ledger} (hm : (m.map Prod.fst).Nodup)
    (hn : (n.map Prod.fst).Nodup) :
    m.SameAreas n ↔ m.length = n.length ∧ ∀ p ∈ n, p.1 ∈ m.map Prod.fst := by
  constructor
  · intro h
    have hperm := (List.perm_ext_iff_of_nodup hm hn).2 h
    refine ⟨by simpa using hperm.length_eq, fun p hp => (h p.1).2 ?_⟩
    exact List.mem_map.2 ⟨p, hp, rfl⟩
  · rintro ⟨hlen, hsub⟩ area
    have hsubperm : (n.map Prod.fst).Subperm (m.map Prod.fst) :=
      hn.subperm fun area harea => by
        obtain ⟨p, hp, rfl⟩ := List.mem_map.1 harea
        exact hsub p hp
    exact (hsubperm.perm_of_length_le (by simp [hlen])).symm.mem_iff

namespace MetricSet

/-- The values of a metric set, or the ratios to its denominators. -/
def values (m : MetricSet) : List Float :=
  match m.denominator with
  | none => Ledger.values m.numerator
  | some denominator =>
    denominator.filterMap fun p => (m.numerator.get? p.1).map fun n => n / p.2

/-- There are no values, or no denominators. -/
def IsEmpty (m : MetricSet) : Prop :=
  match m.denominator with
  | none => m.numerator = []
  | some denominator => denominator = []

/-- There are values, or ratios in all areas of either ledger; they are finite, and as many of them
are different as there are to be classes. -/
def IsGood (k : ℕ) (m : MetricSet) : Prop :=
  (match m.denominator with
    | none => m.numerator ≠ []
    | some denominator =>
      m.numerator.SameAreas denominator ∧ ∀ p ∈ denominator, (p.2 == 0) = false) ∧
    (∀ x ∈ m.values, x.isFinite = true) ∧ k ≤ m.values.eraseDups.length

/-- No area has two values. -/
def IsLedger (m : MetricSet) : Prop :=
  (m.numerator.map Prod.fst).Nodup ∧ ∀ d ∈ m.denominator, (d.map Prod.fst).Nodup

end MetricSet

/-- The classes are those of some values. -/
structure ClassBounds.Describes (x : ClassBounds) (values : List Float) (k : ℕ) : Prop where
  classes : ∃ cs, classes? values k = some (.ok cs)
  bounds : upperBounds values k = .ok x.bounds
  extremes : AreExtremes x.least x.greatest values

/-- Values have classes precisely if they are finite and enough of them are different. -/
theorem classBounds_cases {values : List Float} {k : ℕ} (hk : 0 < k) (t : AreaType)
    (category : String) :
    (((∀ x ∈ values, x.isFinite = true) ∧ k ≤ values.eraseDups.length) ∧
      ∃ x, classBounds values k t category = .ok x ∧ x.Describes values k) ∨
    ¬((∀ x ∈ values, x.isFinite = true) ∧ k ≤ values.eraseDups.length) ∧
      ∃ e, classBounds values k t category = .error e ∧ e.Names t category := by
  by_cases hgood : (∀ x ∈ values, x.isFinite = true) ∧ k ≤ values.eraseDups.length
  · obtain ⟨cs, hcs⟩ := (exists_classes_iff hk).2 hgood
    have hbounds : upperBounds values k = .ok (cs.filterMap List.getLast?) := by
      rw [upperBounds, classes, hcs]
      rfl
    have hne : values ≠ [] := by
      rintro rfl
      exact absurd hgood.2 (not_le.2 hk)
    obtain ⟨least, greatest, hextremes, hare⟩ := exists_extremes? hne hgood.1
    refine .inl ⟨hgood, ⟨_, least, greatest⟩, ?_, ⟨cs, hcs⟩, hbounds, hare⟩
    rw [classBounds, hbounds, hextremes]
  · obtain ⟨result, hresult⟩ := exists_classes? values k
    cases result with
    | ok cs => exact absurd ((exists_classes_iff hk).1 ⟨cs, hresult⟩) hgood
    | error e =>
      have hbounds : upperBounds values k = .error e := by
        rw [upperBounds, classes, hresult]
        rfl
      refine .inr ⟨hgood, .clustering t.name category e, ?_, rfl, rfl⟩
      rw [classBounds, hbounds]

/-- Values are divided if no denominator is zero and all areas are found. -/
theorem ratios_cases (t : AreaType) (category : String) (n d : Ledger) :
    ((∀ p ∈ d, (p.2 == 0) = false ∧ p.1 ∈ n.map Prod.fst) ∧
      ratios t category n d = .ok (d.filterMap fun p => (n.get? p.1).map fun x => x / p.2)) ∨
    (¬∀ p ∈ d, (p.2 == 0) = false ∧ p.1 ∈ n.map Prod.fst) ∧
      ∃ e, ratios t category n d = .error e ∧ e.IsRatioFault t category := by
  induction d with
  | nil => exact .inl ⟨by simp, rfl⟩
  | cons p d ih =>
    obtain ⟨area, y⟩ := p
    rw [ratios, List.forall_mem_cons]
    by_cases hy : (y == 0) = true
    · exact .inr ⟨by simp [hy], _, if_pos hy, area, .inr rfl⟩
    rw [if_neg hy]
    cases hx : Keyed.get? area n with
    | none =>
      refine .inr ⟨fun h => ?_, _, rfl, area, .inl rfl⟩
      have := Keyed.isSome_get?_iff.2 h.1.2
      simp [hx] at this
    | some x =>
      have hmem : area ∈ n.map Prod.fst := Keyed.isSome_get?_iff.1 (by simp [hx])
      rcases ih with ⟨hall, hok⟩ | ⟨hnot, e, he, hfault⟩
      · refine .inl ⟨⟨⟨by simpa using hy, hmem⟩, hall⟩, ?_⟩
        simp [hok, hx, Except.map]
      · exact .inr ⟨fun h => hnot h.2, e, by simp [he, Except.map], hfault⟩

namespace MetricSet

variable {k : ℕ} {m : MetricSet}

theorem verdict_of_isEmpty (h : m.IsEmpty) : m.verdict k = .ok none := by
  obtain ⟨t, c, n, _ | d⟩ := m
  · simp [verdict, show n = [] from h]
  · simp [verdict, show d = [] from h]

/-- A good set has the classes of its values. -/
theorem verdict_of_isGood (hk : 0 < k) (hm : m.IsLedger) (h : m.IsGood k) :
    ∃ x, m.verdict k = .ok (some x) ∧ x.Describes m.values k := by
  obtain ⟨x, hx, hdescribes⟩ :=
    ((classBounds_cases hk m.areaType m.category).resolve_right fun hbad => hbad.1 h.2).2
  refine ⟨x, ?_, hdescribes⟩
  obtain ⟨t, c, n, _ | d⟩ := m
  · have hne : n ≠ [] := h.1
    rw [verdict, if_neg (by simpa using hne)]
    exact congrArg (Except.map some) hx
  · obtain ⟨hsame, hzero⟩ := h.1
    obtain ⟨hlen, hsub⟩ := (Ledger.sameAreas_iff hm.1 (hm.2 d rfl)).1 hsame
    have hd : d ≠ [] := by
      rintro rfl
      exact absurd h.2.2 (not_le.2 hk)
    have hn : n ≠ [] := fun hn => hd (List.length_eq_zero_iff.1 (by rw [← hlen, hn]; rfl))
    have hratios := ((ratios_cases t c n d).resolve_right fun hbad =>
      hbad.1 fun p hp => ⟨hzero p hp, hsub p hp⟩).2
    simp only [verdict, if_neg (show ¬d.isEmpty = true by simpa using hd),
      if_neg (show ¬(n.isEmpty = true ∨ n.length ≠ d.length) by simp [hn, hlen]), hratios]
    exact congrArg (Except.map some) hx

/-- A set that has data and is not good fails. -/
theorem verdict_of_not_isGood (hk : 0 < k) (hm : m.IsLedger) (h : ¬m.IsGood k) (he : ¬m.IsEmpty) :
    ∃ e, m.verdict k = .error e ∧ e.Names m.areaType m.category := by
  obtain ⟨t, c, n, _ | d⟩ := m
  · have hne : n ≠ [] := he
    obtain ⟨e, hbounds, hnames⟩ := ((classBounds_cases hk t c).resolve_left fun hgood =>
      h ⟨hne, hgood.1⟩).2
    refine ⟨e, ?_, hnames⟩
    rw [verdict, if_neg (by simpa using hne)]
    exact congrArg (Except.map some) hbounds
  · have hd : d ≠ [] := he
    simp only [verdict, if_neg (show ¬d.isEmpty = true by simpa using hd)]
    by_cases hlen : n.isEmpty = true ∨ n.length ≠ d.length
    · rw [if_pos hlen]
      exact ⟨_, rfl, rfl, rfl⟩
    rw [if_neg hlen]
    rcases ratios_cases t c n d with ⟨hall, hratios⟩ | ⟨-, e, hratios, hfault⟩
    · have hsame : n.SameAreas d := (Ledger.sameAreas_iff hm.1 (hm.2 d rfl)).2
        ⟨not_not.1 fun hne => hlen (.inr hne), fun p hp => (hall p hp).2⟩
      obtain ⟨e, hbounds, hnames⟩ := ((classBounds_cases hk t c).resolve_left fun hgood =>
        h ⟨⟨hsame, fun p hp => (hall p hp).1⟩, hgood.1⟩).2
      rw [hratios]
      exact ⟨e, congrArg (Except.map some) hbounds, hnames⟩
    · rw [hratios]
      exact ⟨e, rfl, hfault.names⟩

/-! ### Walks along good sets -/

/-- What is recorded of metric sets that have classes. -/
def records (k : ℕ) (ms : List MetricSet) : List ((AreaType × String) × ClassBounds) :=
  ms.map fun m => (m.pair, (m.verdict k).bounds)

/-- If all sets have classes, all of them are recorded. -/
theorem walk_of_all_some {ms : List MetricSet} (h : ∀ m ∈ ms, ∃ x, m.verdict k = .ok (some x))
    (b : Breaks) : walk k b ms = .ok (some (Breaks.recordEach (records k ms) b)) := by
  induction ms generalizing b with
  | nil => rfl
  | cons m ms ih =>
    obtain ⟨x, hx⟩ := h m List.mem_cons_self
    rw [walk, hx, records, List.map_cons, Breaks.recordEach, hx]
    exact ih (fun n hn => h n (List.mem_cons_of_mem m hn)) _

/-- The first set without classes ends the walk. -/
theorem walk_of_first {before : List MetricSet}
    (h : ∀ m ∈ before, ∃ x, m.verdict k = .ok (some x)) (hm : ∀ x, m.verdict k ≠ .ok (some x))
    (b : Breaks) (after : List MetricSet) :
    walk k b (before ++ m :: after) = (m.verdict k).map fun _ => none := by
  rw [walk_append, walk_of_all_some h]
  dsimp only [walk]
  rcases hv : m.verdict k with e | _ | x
  · rfl
  · rfl
  · exact absurd hv (hm x)

theorem isSome_get?_records (ms : List MetricSet) (category : String) :
    (Keyed.get? category (Breaks.recordEach (records k ms) [])).isSome = true ↔
      ∃ m ∈ ms, m.category = category := by
  rw [Breaks.isSome_get?_recordEach]
  simp [records, pair]

theorem isSome_numbers?_records (ms : List MetricSet) (category key : String) :
    ((Breaks.recordEach (records k ms) []).numbers? category key).isSome = true ↔
      ∃ m ∈ ms, m.category = category ∧
        (key = m.areaType.name ∨ key = Breaks.extremesKey m.areaType) := by
  rw [Breaks.isSome_numbers?_recordEach]
  simp [records, pair, Breaks.numbers?]

/-- The last set of a pair is the one that is in the table. -/
theorem numbers?_records {before after : List MetricSet} (hlast : ∀ n ∈ after, n.pair ≠ m.pair)
    {x : ClassBounds} (hx : m.verdict k = .ok (some x)) {key : String} {xs : List Float}
    (hkey : Breaks.field m.areaType x key = some xs) :
    (Breaks.recordEach (records k (before ++ m :: after)) []).numbers? m.category key =
      some xs := by
  have hafter : ∀ y ∈ records k after, y.1 ≠ m.pair := by
    intro y hy
    obtain ⟨n, hn, rfl⟩ := List.mem_map.1 hy
    exact hlast n hn
  have hbounds : (m.verdict k).bounds = x := by rw [hx, Verdict.bounds]
  rw [records, List.map_append, List.map_cons, hbounds]
  exact Breaks.numbers?_recordEach_of_last hafter hkey []

end MetricSet

/-! ### Classifications -/

section

variable {σ : Type} {source : Source σ} {r : BreaksRequest}

theorem Source.Reliable.isLedger_of_mem_loadCategories (h : source.Reliable) {t : AreaType}
    {denominator : Option Ledger} (hd : ∀ d ∈ denominator, (d.map Prod.fst).Nodup)
    {cs : List String} {s : σ} {m : MetricSet}
    (hm : m ∈ (source.loadCategories r t denominator cs s).1) : m.IsLedger := by
  induction cs generalizing s with
  | nil => cases hm
  | cons c cs ih =>
    rcases List.mem_cons.1 hm with rfl | hm
    · exact ⟨h.nodup .., hd⟩
    · exact ih hm

theorem Source.Reliable.isLedger_of_mem_loadTypes (h : source.Reliable) {ts : List AreaType}
    {s : σ} {m : MetricSet} (hm : m ∈ source.loadTypes r ts s) : m.IsLedger := by
  induction ts generalizing s with
  | nil => cases hm
  | cons t ts ih =>
    rcases List.mem_append.1 hm with hm | hm
    · refine h.isLedger_of_mem_loadCategories (fun d hd => ?_) hm
      cases hr : r.divideBy with
      | none => simp [hr] at hd
      | some c =>
        simp only [hr, Option.mem_def, Option.some.injEq] at hd
        exact hd ▸ h.nodup ..
    · exact ih hm

/-- **All or nothing.** A classification works off the metric sets of its request, area type by area
type and category by category. If all of them are good, its table has exactly the categories of the
request, and under each exactly the keys of its area types, with the classes of the values of the
last set of the pair. Otherwise the first set that is not good decides: without data the table is
empty, and else the classification fails with an error that names the set. -/
theorem classify_all_or_nothing (hs : source.Reliable) (hr : r.Accepted) (w : Bench σ) :
    (source.metricSets r w.source).map MetricSet.pair = r.pairs ∧
    ((∀ m ∈ source.metricSets r w.source, m.IsGood r.classes) →
      ∃ b, (classifyWith source r w).1 = .ok b ∧ b.InOrder ∧
        (∀ c, (b.get? c).isSome = true ↔ c ∈ r.categories) ∧
        (∀ c ∈ r.categories, ∀ key, (b.numbers? c key).isSome = true ↔
          ∃ t ∈ r.areaTypes, key = t.name ∨ key = Breaks.extremesKey t) ∧
        ∀ (before : List MetricSet) (m : MetricSet) (after : List MetricSet),
          source.metricSets r w.source = before ++ m :: after → (∀ n ∈ after, n.pair ≠ m.pair) →
            ∃ x : ClassBounds, x.Describes m.values r.classes ∧
              b.numbers? m.category m.areaType.name = some x.bounds ∧
              b.numbers? m.category (Breaks.extremesKey m.areaType) =
                some [x.least, x.greatest]) ∧
    ∀ (before : List MetricSet) (m : MetricSet) (after : List MetricSet),
      source.metricSets r w.source = before ++ m :: after →
      (∀ n ∈ before, n.IsGood r.classes) → ¬m.IsGood r.classes →
        (m.IsEmpty → (classifyWith source r w).1 = .ok []) ∧
        (¬m.IsEmpty → ∃ e, (classifyWith source r w).1 = .error e ∧
          e.Names m.areaType m.category) := by
  have hk := hr.classes_pos
  have hpairs := source.map_pair_metricSets r w.source
  have hledger : ∀ m ∈ source.metricSets r w.source, m.IsLedger := fun m =>
    hs.isLedger_of_mem_loadTypes
  rw [classifyWith_eq_walk hs.toNeverFails]
  refine ⟨hpairs, fun hall => ?_, fun before m after hsets hbefore hm => ?_⟩
  · have hsome : ∀ m ∈ source.metricSets r w.source,
        ∃ x, m.verdict r.classes = .ok (some x) ∧ x.Describes m.values r.classes := fun m hm =>
      MetricSet.verdict_of_isGood hk (hledger m hm) (hall m hm)
    rw [MetricSet.walk_of_all_some fun m hm => (hsome m hm).imp fun _ hx => hx.1]
    have hmem (t : AreaType) (c : String) : (t ∈ r.areaTypes ∧ c ∈ r.categories) ↔
        ∃ m ∈ source.metricSets r w.source, m.areaType = t ∧ m.category = c := by
      rw [← BreaksRequest.mem_pairs (p := (t, c)), ← hpairs, List.mem_map]
      simp [MetricSet.pair]
    obtain ⟨t, ht⟩ := List.exists_mem_of_ne_nil _ hr.areaTypes_ne_nil
    refine ⟨Breaks.recordEach (MetricSet.records r.classes (source.metricSets r w.source)) [], rfl,
      Breaks.inOrder_nil.recordEach _, fun c => ?_, fun c hc key => ?_,
      fun before m after hsets hlast => ?_⟩
    · rw [MetricSet.isSome_get?_records]
      constructor
      · rintro ⟨m, hm, rfl⟩
        exact ((hmem m.areaType m.category).2 ⟨m, hm, rfl, rfl⟩).2
      · intro hc
        obtain ⟨m, hm, -, hmc⟩ := (hmem t c).1 ⟨ht, hc⟩
        exact ⟨m, hm, hmc⟩
    · rw [MetricSet.isSome_numbers?_records]
      constructor
      · rintro ⟨m, hm, rfl, hkey⟩
        exact ⟨m.areaType, ((hmem m.areaType m.category).2 ⟨m, hm, rfl, rfl⟩).1, hkey⟩
      · rintro ⟨t, ht, hkey⟩
        obtain ⟨m, hm, rfl, hmc⟩ := (hmem t c).1 ⟨ht, hc⟩
        exact ⟨m, hm, hmc, hkey⟩
    · obtain ⟨x, hx, hdescribes⟩ := hsome m (by simp [hsets])
      rw [hsets]
      exact ⟨x, hdescribes, MetricSet.numbers?_records hlast hx (Breaks.field_name _ _),
        MetricSet.numbers?_records hlast hx (Breaks.field_extremesKey _ _)⟩
  · have hsome : ∀ n ∈ before, ∃ x, n.verdict r.classes = .ok (some x) := fun n hn =>
      (MetricSet.verdict_of_isGood hk (hledger n (hsets ▸ List.mem_append_left _ hn))
        (hbefore n hn)).imp fun _ hx => hx.1
    have hmem : m ∈ source.metricSets r w.source := by simp [hsets]
    refine ⟨fun he => ?_, fun he => ?_⟩
    · have hv := MetricSet.verdict_of_isEmpty (k := r.classes) he
      rw [hsets, MetricSet.walk_of_first hsome (by simp [hv]), hv]
      rfl
    · obtain ⟨e, hv, hnames⟩ := MetricSet.verdict_of_not_isGood hk (hledger m hmem) hm he
      rw [hsets, MetricSet.walk_of_first hsome (by simp [hv]), hv]
      exact ⟨e, rfl, hnames⟩

end

theorem reliable_ofRows (rows : Release → AreaType → String → List (String × Float)) :
    (Source.ofRows rows).Reliable where
  fault_eq _ _ _ _ := rfl
  nodup v t c _ := Keyed.nodup_keys_foldl_put (rows v t c) List.nodup_nil

/-- A category with a value in one area has one class, and behind a category without values it is
left out. -/
theorem classify_all_or_nothing_of_one_row :
    let source := Source.ofRows (oneRow "Z")
    let good : BreaksRequest := ⟨{}, ["Z"], [.district], 1, none⟩
    let bad : BreaksRequest := ⟨{}, ["X", "Z"], [.district], 1, none⟩
    source.Reliable ∧ good.Accepted ∧ bad.Accepted ∧
      (∃ b, (classifyWith source good ⟨{}, ()⟩).1 = .ok b ∧
        (b.numbers? "Z" "LAD").isSome = true) ∧
      (classifyWith source bad ⟨{}, ()⟩).1 = .ok [] := by
  intro source good bad
  have hs := reliable_ofRows (oneRow "Z")
  have hgood : good.Accepted := ⟨{}, [("cat", "Z"), ("geotype", "LAD"), ("k", "1")], by rfl⟩
  have hbad : bad.Accepted := ⟨{}, [("cat", "X,Z"), ("geotype", "LAD"), ("k", "1")], by rfl⟩
  refine ⟨hs, hgood, hbad, ?_, ?_⟩
  · have hsets : ∀ m ∈ source.metricSets good (), m.IsGood 1 := by
      intro m hm
      obtain rfl : m = ⟨.district, "Z", [("A", 1)], none⟩ := List.mem_singleton.1 hm
      have hfinite : Float.isFinite 1 = true := by decide
      exact ⟨nofun, by simpa [MetricSet.values, Ledger.values] using hfinite, Nat.le_refl 1⟩
    obtain ⟨b, hb, -, -, hkeys, -⟩ :=
      (classify_all_or_nothing hs hgood ⟨{}, ()⟩).2.1 hsets
    exact ⟨b, hb, (hkeys "Z" (by simp [good]) "LAD").2 ⟨.district, by simp [good], .inl rfl⟩⟩
  · have hsets : source.metricSets bad () = [] ++ ⟨.district, "X", [], none⟩ ::
        [⟨.district, "Z", [("A", 1)], none⟩] := rfl
    exact ((classify_all_or_nothing hs hbad ⟨{}, ()⟩).2.2 _ _ _ hsets (by simp)
      fun h => h.1 rfl).1 rfl

end Choropleth
