import Choropleth.Proofs.Condition.SqlTrees
import Choropleth.Proofs.Geometry.Boxes
import Choropleth.Proofs.Text.Bytes

/-!
# What conditions denote

A condition denotes a set of rows if its text is plain, its values fit its places, and it accepts
just these rows. Every way to build a condition up adds the restriction that it stands for.

* `Release.Has`, `Selection.Allows`, `FactRow.LiesIn`: the restrictions;
* `Condition.Denotes`: a condition and the rows that it accepts;
* `Condition.Denotes.onAxis` and the theorems after it: restrictions added one by one;
* `Condition.denotes_forValues`: the values of one category in the valid areas of one type.
-/

namespace Choropleth

/-! ### Restrictions -/

/-- The row belongs to the release, and its category to the census year of the release. -/
def Release.Has (v : Release) (row : FactRow) : Prop :=
  row.releaseYear = v.year ∧ row.releaseLabel = v.label ∧ row.categoryYear = v.year

/-- Nothing is selected, or the code is selected, lies in a selected range or begins with one of
the beginnings, texts being compared byte by byte. -/
def Selection.Allows (s : Selection) (beginnings : List String) (code : String) : Prop :=
  s.isEmpty = true ∧ beginnings = [] ∨ code ∈ s.codes ∨
    (∃ g ∈ s.ranges, Text.utf8 g.first ≤ Text.utf8 code ∧ Text.utf8 code ≤ Text.utf8 g.last) ∨
      ∃ b ∈ beginnings, Text.utf8 b <+: Text.utf8 code

namespace FactRow

/-- The envelope of the area, if it has one. -/
def envelope? (row : FactRow) : Option Box :=
  match row.minLon, row.minLat, row.maxLon, row.maxLat with
  | some west, some south, some east, some north => some ⟨west, south, east, north⟩
  | _, _, _, _ => none

/-- The area is valid and has an envelope that meets the box. -/
def LiesIn (row : FactRow) (b : Box) : Prop :=
  row.valid = true ∧ ∃ e, row.envelope? = some e ∧ b.Meets e

end FactRow

namespace Condition

/-- The text of a condition is plain, its values fit, and it accepts just the given rows. -/
structure Denotes (q : Condition) (P : FactRow → Prop) : Prop where
  plain : q.IsPlain
  bound : q.IsBound
  accepts_iff : ∀ row, q.accepts row = true ↔ P row

theorem Denotes.sql_accepts_iff {q : Condition} {P : FactRow → Prop} (h : q.Denotes P)
    (row : FactRow) : Sql.Accepts q.sql q.values row ↔ P row :=
  (Condition.sql_accepts_iff h.plain h.bound row).trans (h.accepts_iff row)

theorem Denotes.congr {q : Condition} {P Q : FactRow → Prop} (h : q.Denotes P)
    (hPQ : ∀ row, P row ↔ Q row) : q.Denotes Q :=
  ⟨h.plain, h.bound, fun row => (h.accepts_iff row).trans (hPQ row)⟩

/-- A clause adds the restriction that it stands for. -/
theorem Denotes.add {q : Condition} {P Q : FactRow → Prop} (h : q.Denotes P) {c : Clause}
    {vs : List Datum} (hc : c.IsPlain) (hvs : vs.length = c.arity)
    (hQ : ∀ row, c.truth row vs = some true ↔ Q row) :
    (q.add c vs).Denotes fun row => P row ∧ Q row := by
  refine ⟨⟨by simp [Condition.add], ?_⟩, h.bound.add hvs, fun row => ?_⟩
  · intro d hd
    rcases List.mem_append.1 hd with hd | hd
    · exact h.plain.2 d hd
    · rw [List.mem_singleton.1 hd]
      exact hc
  · rw [accepts_add h.bound hvs, h.accepts_iff, hQ]

/-- The same for a clause of a single test. -/
theorem Denotes.add_one {q : Condition} {P Q : FactRow → Prop} (h : q.Denotes P) {t : Test}
    {vs : List Datum} (ht : t.IsPlain) (hvs : vs.length = t.arity)
    (hQ : ∀ row, t.truth row vs = some true ↔ Q row) :
    (q.add (.one t) vs).Denotes fun row => P row ∧ Q row := by
  refine h.add ⟨List.cons_ne_nil t [], fun u hu => ?_⟩ hvs fun row => ?_
  · rw [List.mem_singleton.1 hu]
    exact ht
  · rw [Clause.truth_one row t hvs, hQ]

/-! ### Releases -/

theorem denotes_forRelease (v : Release) : (forRelease v).Denotes v.Has := by
  refine ⟨⟨List.cons_ne_nil _ _, ?_⟩, rfl, fun row => ?_⟩
  · intro c hc
    simp only [forRelease, List.mem_cons, List.not_mem_nil, or_false] at hc
    rcases hc with rfl | rfl | rfl <;> simp [Clause.IsPlain, Clause.one, Clause.tests, Test.IsPlain]
  · rw [Condition.accepts_iff, truth, Truth.all_eq_true]
    have htests : Clause.truths row (forRelease v).clauses (forRelease v).values =
        [Truth.all [Datum.eq (.int row.releaseYear) (.int v.year)],
          Truth.all [Datum.eq (.text row.releaseLabel) (.text v.label)],
          Truth.all [Datum.eq (.int row.categoryYear) (.int row.releaseYear)]] := rfl
    simp only [htests, List.forall_mem_cons, Truth.all_eq_true, List.not_mem_nil, false_imp_iff,
      implies_true, and_true, Datum.eq_int_iff, Datum.eq_text_iff, Release.Has]
    constructor
    · rintro ⟨hyear, hlabel, hcategory⟩
      exact ⟨hyear, hlabel, hcategory.trans hyear⟩
    · rintro ⟨hyear, hlabel, hcategory⟩
      exact ⟨hyear, hlabel, hcategory.trans hyear.symm⟩

/-! ### Selections -/

section Axis

variable {c : Column} {row : FactRow} {code : String}

theorem oneOf_truth_iff (hcode : c.datum row = .text code) (codes : List String) :
    (Test.oneOf c codes.length).truth row (codes.map .text) = some true ↔ code ∈ codes := by
  rw [Test.truth, Truth.any_eq_true, List.map_map]
  simp only [List.mem_map, Function.comp_apply, hcode, exists_exists_and_eq_and, Datum.eq_text_iff,
    exists_eq_right']

theorem codes_truths_iff (hcode : c.datum row = .text code) (codes : List String) :
    (∃ t ∈ Test.truths row (if codes.isEmpty then [] else [.oneOf c codes.length])
      (codes.map .text), t = some true) ↔ code ∈ codes := by
  cases codes with
  | nil => simp [Test.truths]
  | cons a as =>
    have htake : ((a :: as).map Datum.text).take (a :: as).length = (a :: as).map Datum.text :=
      List.take_of_length_le (by simp)
    rw [List.isEmpty_cons, if_neg Bool.false_ne_true, Test.truths, Test.arity, htake,
      List.exists_mem_cons_iff, oneOf_truth_iff hcode]
    simp [Test.truths]

theorem ranges_truths_iff (hcode : c.datum row = .text code) (ranges : List CodeRange) :
    (∃ t ∈ Test.truths row (ranges.map fun _ => .between c)
      (ranges.flatMap fun g => [.text g.first, .text g.last]), t = some true) ↔
        ∃ g ∈ ranges, g.first ≤ code ∧ code ≤ g.last := by
  induction ranges with
  | nil => simp [Test.truths]
  | cons g gs ih =>
    have hg : (Test.between c).truth row [.text g.first, .text g.last] = some true ↔
        g.first ≤ code ∧ code ≤ g.last := by
      rw [Test.truth, hcode, Truth.both_eq_true, Datum.le_text_iff, Datum.le_text_iff]
    rw [List.exists_mem_cons_iff, ← ih, ← hg]
    exact List.exists_mem_cons_iff ..

theorem beginnings_truths_iff (hcode : c.datum row = .text code) (beginnings : List String) :
    (∃ t ∈ Test.truths row (beginnings.map fun _ => .startsWith c) (beginnings.map .text),
      t = some true) ↔ ∃ b ∈ beginnings, b.toList <+: code.toList := by
  induction beginnings with
  | nil => simp [Test.truths]
  | cons b bs ih =>
    have hb : (Test.startsWith c).truth row [.text b] = some true ↔
        b.toList <+: code.toList := by
      rw [Test.truth, hcode, Datum.startsWith_iff]
    rw [List.exists_mem_cons_iff, ← ih, ← hb]
    exact List.exists_mem_cons_iff ..

theorem length_codes (c : Column) (codes : List String) : (codes.map Datum.text).length =
    Test.arities (if codes.isEmpty then [] else [.oneOf c codes.length]) := by
  cases codes <;> simp [Test.arities, Test.arity]

theorem length_ranges (c : Column) (ranges : List CodeRange) :
    (ranges.flatMap fun g => [Datum.text g.first, Datum.text g.last]).length =
      Test.arities (ranges.map fun _ => .between c) := by
  induction ranges with
  | nil => rfl
  | cons g gs ih =>
    rw [List.flatMap_cons, List.length_append, ih, List.map_cons, Test.arities]
    rfl

theorem length_beginnings (c : Column) (beginnings : List String) :
    (beginnings.map Datum.text).length =
      Test.arities (beginnings.map fun _ => .startsWith c) := by
  induction beginnings with
  | nil => rfl
  | cons b bs ih =>
    rw [List.map_cons, List.length_cons, ih, List.map_cons, Test.arities, Nat.add_comm]
    rfl

theorem length_axisValues (c : Column) (s : Selection) (beginnings : List String) :
    (axisValues s beginnings).length = Test.arities (axisTests c s beginnings) := by
  rw [axisValues, axisTests, Test.arities_append, Test.arities_append, List.length_append,
    List.length_append, length_codes c, length_ranges c, length_beginnings c]

theorem isPlain_axisTests {s : Selection} {beginnings : List String}
    (h : ¬(s.isEmpty ∧ beginnings.isEmpty)) : (Clause.any (axisTests c s beginnings)).IsPlain := by
  constructor
  · rintro hnil
    simp only [Clause.tests, axisTests, List.append_eq_nil_iff, List.map_eq_nil_iff] at hnil
    obtain ⟨⟨hcodes, hranges⟩, hbeginnings⟩ := hnil
    have hcodes : s.codes.isEmpty = true := by
      by_contra hne
      rw [if_neg hne] at hcodes
      exact List.cons_ne_nil _ _ hcodes
    exact h ⟨by simp [Selection.isEmpty, hcodes, hranges], by simp [hbeginnings]⟩
  · intro t ht
    simp only [Clause.tests, axisTests, List.mem_append, List.mem_map] at ht
    rcases ht with (ht | ⟨g, -, rfl⟩) | ⟨b, -, rfl⟩
    · split at ht
      · cases ht
      · next hne =>
        rw [List.mem_singleton.1 ht]
        exact List.length_pos_iff.2 fun hnil => hne (by simp [hnil])
    · exact trivial
    · exact trivial

/-- The clause of an axis is true of what the selection allows. -/
theorem axis_truth_iff (hcode : c.datum row = .text code) {s : Selection}
    {beginnings : List String} (h : ¬(s.isEmpty ∧ beginnings.isEmpty)) :
    (Clause.any (axisTests c s beginnings)).truth row (axisValues s beginnings) = some true ↔
      s.Allows beginnings code := by
  have hopen : ¬(s.isEmpty = true ∧ beginnings = []) := by simpa using h
  rw [Clause.truth, axisTests, axisValues, Truth.any_eq_true,
    Test.truths_append row (by
      rw [List.length_append, length_codes c, length_ranges c, Test.arities_append]),
    Test.truths_append row (length_codes c s.codes)]
  simp only [List.mem_append, or_and_right, exists_or, codes_truths_iff hcode,
    ranges_truths_iff hcode, beginnings_truths_iff hcode, Selection.Allows, Text.utf8_le_iff,
    Text.utf8_prefix_iff, hopen, false_or, or_assoc]

end Axis

/-- A selection on an axis restricts it to what the selection allows. -/
theorem Denotes.onAxis {q : Condition} {P : FactRow → Prop} (h : q.Denotes P) {c : Column}
    (code : FactRow → String) (hcode : ∀ row, c.datum row = .text (code row)) (s : Selection)
    (beginnings : List String) :
    (q.onAxis c s beginnings).Denotes fun row => P row ∧ s.Allows beginnings (code row) := by
  unfold Condition.onAxis
  split
  · next hopen =>
    have hallows (row : FactRow) : s.Allows beginnings (code row) := .inl (by simpa using hopen)
    exact h.congr fun row => (and_iff_left (hallows row)).symm
  · next hopen =>
    exact h.add (isPlain_axisTests hopen) (length_axisValues c s beginnings)
      fun row => axis_truth_iff (hcode row) hopen

/-! ### Area types -/

theorem Denotes.onAreaTypes {q : Condition} {P : FactRow → Prop} (h : q.Denotes P)
    (types : List AreaType) :
    (q.onAreaTypes types).Denotes fun row =>
      P row ∧ (types = [] ∨ ∃ t ∈ types, row.areaType = t.name) := by
  unfold Condition.onAreaTypes
  split
  · next hopen =>
    have hnil : types = [] := List.isEmpty_iff.1 hopen
    exact h.congr fun row => (and_iff_left (.inl hnil)).symm
  · next hopen =>
    have hnil : types ≠ [] := fun hnil => hopen (by simp [hnil])
    refine h.add_one (List.length_pos_iff.2 hnil) (List.length_map _) fun row => ?_
    have hcode : Column.areaTypeName.datum row = .text row.areaType := rfl
    have htruth := oneOf_truth_iff hcode (types.map AreaType.name)
    rw [List.length_map, List.map_map] at htruth
    refine htruth.trans ?_
    simp only [hnil, false_or, List.mem_map, eq_comm]

/-! ### Boxes -/

theorem Denotes.onValid {q : Condition} {P : FactRow → Prop} (h : q.Denotes P) :
    (q.add (.one (.holds .areaValid)) []).Denotes fun row => P row ∧ row.valid = true :=
  h.add_one trivial rfl fun row => by simp [Test.truth, Column.datum, Datum.truth]

theorem envelopeMeets_truth_iff (row : FactRow) (b : Box) :
    envelopeMeets.truth row (envelopeValues b) = some true ↔
      ∃ e, row.envelope? = some e ∧ b.Meets e := by
  have htests : envelopeMeets.truth row (envelopeValues b) =
      Truth.all [Datum.le (.real b.west) (Column.ofOption row.maxLon),
        Datum.le (Column.ofOption row.minLon) (.real b.east),
        Datum.le (.real b.south) (Column.ofOption row.maxLat),
        Datum.le (Column.ofOption row.minLat) (.real b.north)] := rfl
  rw [htests, Truth.all_eq_true]
  simp only [List.forall_mem_cons, List.not_mem_nil, false_imp_iff, implies_true, and_true,
    Datum.le_ofOption_iff, Datum.ofOption_le_iff]
  constructor
  · rintro ⟨⟨east, heast, hbe⟩, ⟨west, hwest, hwb⟩, ⟨north, hnorth, hbn⟩, ⟨south, hsouth, hsb⟩⟩
    refine ⟨⟨west, south, east, north⟩, ?_, ⟨hbe, hwb⟩, hbn, hsb⟩
    simp only [Option.mem_def] at heast hwest hnorth hsouth
    simp [FactRow.envelope?, heast, hwest, hnorth, hsouth]
  · rintro ⟨e, he, ⟨hbe, heb⟩, hbn, hnb⟩
    unfold FactRow.envelope? at he
    split at he
    · next hwest hsouth heast hnorth =>
      obtain rfl := Option.some.inj he
      exact ⟨⟨_, heast, hbe⟩, ⟨_, hwest, heb⟩, ⟨_, hnorth, hbn⟩, ⟨_, hsouth, hnb⟩⟩
    · cases he

theorem isPlain_envelopeMeets : envelopeMeets.IsPlain := by
  refine ⟨List.cons_ne_nil _ _, fun t ht => ?_⟩
  simp only [envelopeMeets, Clause.tests, List.mem_cons, List.not_mem_nil, or_false] at ht
  rcases ht with rfl | rfl | rfl | rfl <;> exact trivial

/-- A box restricts the areas to valid ones that meet it. -/
theorem Denotes.onBox {q : Condition} {P : FactRow → Prop} (h : q.Denotes P) (b : Box) :
    (q.onZone (some (.box b))).Denotes fun row => P row ∧ row.LiesIn b := by
  have hbox := h.onValid.add isPlain_envelopeMeets
    (rfl : (envelopeValues b).length = envelopeMeets.arity) fun row => envelopeMeets_truth_iff row b
  exact hbox.congr fun row => and_assoc

/-! ### Values of a category -/

/-- The values of a category are those of the valid areas of a type. -/
theorem denotes_forValues (v : Release) (t : AreaType) (category : String) :
    (forValues v t category).Denotes fun row =>
      ((v.Has row ∧ row.valid = true) ∧ row.areaType = t.name) ∧ row.category = category := by
  refine Denotes.add_one (.add_one (denotes_forRelease v).onValid ?_ rfl ?_) ?_ rfl ?_
  · exact trivial
  · exact fun row => Datum.eq_text_iff
  · exact trivial
  · exact fun row => Datum.eq_text_iff

end Condition
end Choropleth
