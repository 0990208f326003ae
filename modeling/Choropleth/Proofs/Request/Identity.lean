import Mathlib
import Choropleth.Proofs.Request.Accepted
import Choropleth.Proofs.Request.CanonicalText
import Choropleth.Proofs.Selection.RangeText

/-!
# What keys say about requests

A key is computed from the canonical text of a request, and the text is built from user texts
without any escaping. It says which request was made up to two things: the lines of the text can be
cut differently if there are line feeds in codes or labels, and ranges can be cut differently if
there are dots next to their marks.

* `TableRequest.SameAs`, `BreaksRequest.SameAs`: requests for the same thing;
* `TableRequest.lineFeeds`, `BreaksRequest.lineFeeds`: how many line feeds the lines of the
  canonical text have;
* `canonicalText_identifies`: which requests are identified by their canonical texts;
* `canonicalText_collides`: different requests with one text;
* `sameAs_of_canonicalText_eq`: the usual case of codes on single lines and without loose dots.
-/

namespace Choropleth

/-- A line with one text or none has this text, unless it is empty. -/
theorem eq_of_canonicalLine_option_eq {name : String} {x y : Option String} (hx : ∀ s ∈ x, s ≠ "")
    (hy : ∀ s ∈ y, s ≠ "") (h : canonicalLine name x.toList = canonicalLine name y.toList) :
    x = y := by
  have hj := joinedValues_eq_of_canonicalLine_eq h
  cases x with
  | none =>
    cases y with
    | none => rfl
    | some t => simp [joinedValues, Text.joinWith, hy t rfl] at hj
  | some s =>
    cases y with
    | none => simp [joinedValues, Text.joinWith, hx s rfl] at hj
    | some t => exact congrArg some (eq_of_canonicalLine_singleton_eq h)

theorem ne_empty_of_isCode {cs : List String} (h : ∀ c ∈ cs, IsCode c.toList) :
    ∀ c ∈ cs, c ≠ "" ∧ ',' ∉ c.toList :=
  fun c hc => ⟨by simpa using (h c hc).ne_nil, (h c hc).comma_not_mem⟩

theorem ne_empty_of_mem_names {types : List AreaType} :
    ∀ n ∈ types.map AreaType.name, n ≠ "" ∧ ',' ∉ n.toList := by
  intro n hn
  obtain ⟨t, -, rfl⟩ := List.mem_map.1 hn
  cases t <;> decide

/-- Area types are given by their names. -/
theorem mem_areaTypes_of_names {ts us : List AreaType}
    (h : ∀ n, n ∈ ts.map AreaType.name ↔ n ∈ us.map AreaType.name) (t : AreaType) :
    t ∈ ts ↔ t ∈ us := by
  have := h t.name
  rwa [List.mem_map_of_injective fun _ _ => AreaType.name_injective,
    List.mem_map_of_injective fun _ _ => AreaType.name_injective] at this

/-- A release is given by its lines. -/
theorem release_eq_of_lines {r q : Release}
    (hyear : canonicalLine "year" [toString r.year] = canonicalLine "year" [toString q.year])
    (hlabel : canonicalLine "ver" [r.label] = canonicalLine "ver" [q.label]) : r = q := by
  have hy : r.year = q.year := Int.repr_injective (eq_of_canonicalLine_singleton_eq hyear)
  have hl := eq_of_canonicalLine_singleton_eq hlabel
  exact congrArg₂ Release.mk hy hl

/-- Lines can be cut from a text in front of its last line once their line feeds are counted. -/
theorem lines_eq_of_texts_eq {ls ms : List (String × List String)} {n n' : String}
    {vs ws : List String}
    (hc : ls.map (fun l => (canonicalLine l.1 l.2).toList.count '\n') =
      ms.map fun l => (canonicalLine l.1 l.2).toList.count '\n')
    (h : (ls.flatMap fun l => (canonicalLine l.1 l.2).toList) ++ (canonicalLine n vs).toList =
      (ms.flatMap fun l => (canonicalLine l.1 l.2).toList) ++ (canonicalLine n' ws).toList) :
    ls.map (fun l => canonicalLine l.1 l.2) = ms.map (fun l => canonicalLine l.1 l.2) ∧
      canonicalLine n vs = canonicalLine n' ws := by
  have hends (ls : List (String × List String)) :
      ∀ l ∈ ls.map (fun l => (canonicalLine l.1 l.2).toList), ∃ u, l = u ++ ['\n'] := by
    intro l hl
    obtain ⟨p, -, rfl⟩ := List.mem_map.1 hl
    exact canonicalLine_ends p.1 p.2
  rw [List.flatMap_def, List.flatMap_def] at h
  obtain ⟨hl, hlast⟩ := lines_eq_of_flatten_append_eq (hends ls) (hends ms)
    (by simpa [Function.comp_def] using hc) h
  refine ⟨?_, String.toList_inj.1 hlast⟩
  refine List.map_injective_iff.2 (fun _ _ => String.toList_inj.1) ?_
  simpa [Function.comp_def] using hl

namespace TableRequest

/-- Two requests ask for the same thing: their lists have the same entries, in whatever order and
however often, and everything else is equal. -/
structure SameAs (a b : TableRequest) : Prop where
  release : a.release = b.release
  areas : a.areas.SameAs b.areas
  categories : a.categories.SameAs b.categories
  tables : ∀ t, t ∈ a.tables ↔ t ∈ b.tables
  areaTypes : ∀ t, t ∈ a.areaTypes ↔ t ∈ b.areaTypes
  zone : a.zone = b.zone
  divideBy : a.divideBy = b.divideBy

/-- The fields of the canonical text in front of the last one, with their values. -/
def fields (r : TableRequest) : List (String × List String) :=
  [("endpoint", ["query"]), ("year", [toString r.release.year]), ("ver", [r.release.label]),
    ("rows", r.areas.texts), ("cols", r.categories.texts), ("censustable", r.tables),
    ("geotype", r.areaTypes.map AreaType.name), ("spatial", [zoneText r.zone])]

/-- How many line feeds the lines of the canonical text have in front of the last line. -/
def lineFeeds (r : TableRequest) : List ℕ :=
  r.fields.map fun l => (canonicalLine l.1 l.2).toList.count '\n'

theorem toList_canonicalText (r : TableRequest) :
    r.canonicalText.toList = (r.fields.flatMap fun l => (canonicalLine l.1 l.2).toList) ++
      (canonicalLine "divide_by" r.divideBy.toList).toList := by
  simp [canonicalText, fields, Release.canonicalText]

/-- The same things have the same lines. -/
theorem SameAs.lines_eq {a b : TableRequest} (h : a.SameAs b) :
    a.fields.map (fun l => canonicalLine l.1 l.2) =
      b.fields.map fun l => canonicalLine l.1 l.2 := by
  have htypes (n) : n ∈ a.areaTypes.map AreaType.name ↔ n ∈ b.areaTypes.map AreaType.name := by
    simp only [List.mem_map, h.areaTypes]
  simp only [fields, List.map_cons, List.map_nil]
  rw [h.release, h.zone, canonicalLine_congr (Selection.texts_congr h.areas),
    canonicalLine_congr (Selection.texts_congr h.categories), canonicalLine_congr h.tables,
    canonicalLine_congr htypes]

/-- Requests for the same thing share their text. -/
theorem SameAs.canonicalText_eq {a b : TableRequest} (h : a.SameAs b) :
    a.canonicalText = b.canonicalText := by
  have hl := congrArg (fun ls => (ls.map String.toList).flatten) h.lines_eq
  rw [← String.toList_inj, toList_canonicalText, toList_canonicalText, h.divideBy,
    List.append_cancel_right_eq]
  simpa [List.flatMap_def, Function.comp_def] using hl

/-- Requests with the same lines are the same, if no dots of one of them are loose. -/
theorem sameAs_of_lines_eq {a b : TableRequest} (ha : a.WellFormed) (hb : b.WellFormed)
    (hd : ∀ x ∈ a.areas.ranges ++ a.categories.ranges, ¬x.LooseDot)
    (h : a.fields.map (fun l => canonicalLine l.1 l.2) =
      b.fields.map fun l => canonicalLine l.1 l.2)
    (hdivide : canonicalLine "divide_by" a.divideBy.toList =
      canonicalLine "divide_by" b.divideBy.toList) : a.SameAs b := by
  simp only [fields, List.map_cons, List.map_nil, List.cons.injEq, and_true, true_and] at h
  obtain ⟨hyear, hlabel, hareas, hcategories, htables, htypes, hzone⟩ := h
  refine ⟨release_eq_of_lines hyear hlabel, ?_, ?_, ?_, ?_, ?_, ?_⟩
  · exact Selection.sameAs_of_texts ha.areas hb.areas
      (fun x hx => hd x (List.mem_append_left _ hx))
      (mem_of_canonicalLine_eq (Selection.ne_empty_of_mem_texts ha.areas)
        (Selection.ne_empty_of_mem_texts hb.areas) hareas)
  · exact Selection.sameAs_of_texts ha.categories hb.categories
      (fun x hx => hd x (List.mem_append_right _ hx))
      (mem_of_canonicalLine_eq (Selection.ne_empty_of_mem_texts ha.categories)
        (Selection.ne_empty_of_mem_texts hb.categories) hcategories)
  · exact mem_of_canonicalLine_eq (ne_empty_of_isCode ha.tables) (ne_empty_of_isCode hb.tables)
      htables
  · exact mem_areaTypes_of_names
      (mem_of_canonicalLine_eq ne_empty_of_mem_names ne_empty_of_mem_names htypes)
  · exact zoneText_injective ha.zone hb.zone (eq_of_canonicalLine_singleton_eq hzone)
  · exact eq_of_canonicalLine_option_eq ha.divideBy hb.divideBy hdivide

/-- Without loose dots, requests with one text are the same if and only if the text is cut into
lines in the same places. -/
theorem sameAs_iff_lineFeeds_eq {a b : TableRequest} (ha : a.WellFormed) (hb : b.WellFormed)
    (hd : ∀ x ∈ a.areas.ranges ++ a.categories.ranges, ¬x.LooseDot)
    (h : a.canonicalText = b.canonicalText) : a.SameAs b ↔ a.lineFeeds = b.lineFeeds := by
  constructor
  · intro hs
    have := congrArg (List.map fun l : String => l.toList.count '\n') hs.lines_eq
    simpa [lineFeeds, Function.comp_def] using this
  · intro hc
    have ht := String.toList_inj.2 h
    rw [toList_canonicalText, toList_canonicalText] at ht
    obtain ⟨hl, hdivide⟩ := lines_eq_of_texts_eq hc ht
    exact sameAs_of_lines_eq ha hb hd hl hdivide

/-- For a request with a loose dot there is another request with the same lines. -/
theorem exists_other_of_looseDot {a : TableRequest} (ha : a.Accepted) {x : CodeRange}
    (hx : x ∈ a.areas.ranges ++ a.categories.ranges) (hd : x.LooseDot) :
    ∃ b : TableRequest, b.Accepted ∧ a.canonicalText = b.canonicalText ∧
      a.lineFeeds = b.lineFeeds ∧ ¬a.SameAs b := by
  rcases List.mem_append.1 hx with hx | hx
  · obtain ⟨s, hs, htexts, hempty, hne⟩ :=
      Selection.exists_other_of_looseDot ha.wellFormed.areas hx hd
    refine ⟨_, ha.withAreas hs hempty, ?_, ?_, fun h => hne h.areas⟩
    · simp only [canonicalText, htexts]
    · simp only [lineFeeds, fields, htexts]
  · obtain ⟨s, hs, htexts, hempty, hne⟩ :=
      Selection.exists_other_of_looseDot ha.wellFormed.categories hx hd
    refine ⟨_, ha.withCategories hs hempty, ?_, ?_, fun h => hne h.categories⟩
    · simp only [canonicalText, htexts]
    · simp only [lineFeeds, fields, htexts]

end TableRequest

namespace BreaksRequest

/-- Two requests ask for the same thing: their lists have the same entries, in whatever order and
however often, and everything else is equal. -/
structure SameAs (a b : BreaksRequest) : Prop where
  release : a.release = b.release
  categories : ∀ c, c ∈ a.categories ↔ c ∈ b.categories
  areaTypes : ∀ t, t ∈ a.areaTypes ↔ t ∈ b.areaTypes
  classes : a.classes = b.classes
  divideBy : a.divideBy = b.divideBy

/-- The fields of the canonical text in front of the last one, with their values. -/
def fields (r : BreaksRequest) : List (String × List String) :=
  [("endpoint", ["ckmeans"]), ("year", [toString r.release.year]), ("ver", [r.release.label]),
    ("cat", r.categories), ("geotype", r.areaTypes.map AreaType.name), ("k", [toString r.classes])]

/-- How many line feeds the lines of the canonical text have in front of the last line. -/
def lineFeeds (r : BreaksRequest) : List ℕ :=
  r.fields.map fun l => (canonicalLine l.1 l.2).toList.count '\n'

theorem toList_canonicalText (r : BreaksRequest) :
    r.canonicalText.toList = (r.fields.flatMap fun l => (canonicalLine l.1 l.2).toList) ++
      (canonicalLine "divide_by" r.divideBy.toList).toList := by
  simp [canonicalText, fields, Release.canonicalText]

/-- The same things have the same lines. -/
theorem SameAs.lines_eq {a b : BreaksRequest} (h : a.SameAs b) :
    a.fields.map (fun l => canonicalLine l.1 l.2) =
      b.fields.map fun l => canonicalLine l.1 l.2 := by
  have htypes (n) : n ∈ a.areaTypes.map AreaType.name ↔ n ∈ b.areaTypes.map AreaType.name := by
    simp only [List.mem_map, h.areaTypes]
  simp only [fields, List.map_cons, List.map_nil]
  rw [h.release, h.classes, canonicalLine_congr h.categories, canonicalLine_congr htypes]

/-- Requests for the same thing share their text. -/
theorem SameAs.canonicalText_eq {a b : BreaksRequest} (h : a.SameAs b) :
    a.canonicalText = b.canonicalText := by
  have hl := congrArg (fun ls => (ls.map String.toList).flatten) h.lines_eq
  rw [← String.toList_inj, toList_canonicalText, toList_canonicalText, h.divideBy,
    List.append_cancel_right_eq]
  simpa [List.flatMap_def, Function.comp_def] using hl

/-- Requests with the same lines are the same. -/
theorem sameAs_of_lines_eq {a b : BreaksRequest} (ha : a.WellFormed) (hb : b.WellFormed)
    (h : a.fields.map (fun l => canonicalLine l.1 l.2) =
      b.fields.map fun l => canonicalLine l.1 l.2)
    (hdivide : canonicalLine "divide_by" a.divideBy.toList =
      canonicalLine "divide_by" b.divideBy.toList) : a.SameAs b := by
  simp only [fields, List.map_cons, List.map_nil, List.cons.injEq, and_true, true_and] at h
  obtain ⟨hyear, hlabel, hcategories, htypes, hclasses⟩ := h
  refine ⟨release_eq_of_lines hyear hlabel, ?_, ?_, ?_, ?_⟩
  · exact mem_of_canonicalLine_eq (ne_empty_of_isCode ha.categories)
      (ne_empty_of_isCode hb.categories) hcategories
  · exact mem_areaTypes_of_names
      (mem_of_canonicalLine_eq ne_empty_of_mem_names ne_empty_of_mem_names htypes)
  · exact Nat.repr_injective (eq_of_canonicalLine_singleton_eq hclasses)
  · exact eq_of_canonicalLine_option_eq ha.divideBy hb.divideBy hdivide

/-- Requests with one text are the same if and only if the text is cut into lines in the same
places. -/
theorem sameAs_iff_lineFeeds_eq {a b : BreaksRequest} (ha : a.WellFormed) (hb : b.WellFormed)
    (h : a.canonicalText = b.canonicalText) : a.SameAs b ↔ a.lineFeeds = b.lineFeeds := by
  constructor
  · intro hs
    have := congrArg (List.map fun l : String => l.toList.count '\n') hs.lines_eq
    simpa [lineFeeds, Function.comp_def] using this
  · intro hc
    have ht := String.toList_inj.2 h
    rw [toList_canonicalText, toList_canonicalText] at ht
    obtain ⟨hl, hdivide⟩ := lines_eq_of_texts_eq hc ht
    exact sameAs_of_lines_eq ha hb hl hdivide

end BreaksRequest

/-! ### Codes on single lines -/

theorem count_newline_eq_one {name : String} {values : List String} (hn : '\n' ∉ name.toList)
    (hv : ∀ v ∈ values, '\n' ∉ v.toList) :
    (canonicalLine name values).toList.count '\n' = 1 := by
  rw [toList_canonicalLine, List.count_append, List.count_eq_zero_of_not_mem hn,
    List.count_cons_of_ne (by decide), List.count_append,
    List.count_eq_zero_of_not_mem (newline_not_mem_joinedValues hv)]
  rfl

theorem newline_not_mem_repr (n : ℕ) : '\n' ∉ (Nat.repr n).toList := by
  intro h
  rw [Nat.toList_repr] at h
  exact absurd (Number.isDigit_of_mem_toDigits h) (by decide)

theorem newline_not_mem_toString (i : ℤ) : '\n' ∉ (toString i).toList := by
  rw [show toString i = Int.repr i from rfl, Int.repr_eq_if]
  split
  · exact newline_not_mem_repr i.toNat
  · simpa using newline_not_mem_repr (-i).toNat

theorem newline_not_mem_name (t : AreaType) : '\n' ∉ t.name.toList := by cases t <;> decide

namespace TableRequest

/-- The label and the codes have no line feeds in them. -/
def OnSingleLines (r : TableRequest) : Prop :=
  ∀ x ∈ r.release.label :: (r.areas.texts ++ r.categories.texts ++ r.tables), '\n' ∉ x.toList

theorem OnSingleLines.lineFeeds_eq {r : TableRequest} (h : r.OnSingleLines) :
    r.lineFeeds = List.replicate 8 1 := by
  have hv {vs : List String}
      (hvs : ∀ v ∈ vs, v ∈ r.release.label :: (r.areas.texts ++ r.categories.texts ++ r.tables)) :
      ∀ v ∈ vs, '\n' ∉ v.toList := fun v hm => h v (hvs v hm)
  have hnames : ∀ n ∈ r.areaTypes.map AreaType.name, '\n' ∉ n.toList := by
    intro n hn
    obtain ⟨t, -, rfl⟩ := List.mem_map.1 hn
    exact newline_not_mem_name t
  simp only [lineFeeds, fields, List.map_cons, List.map_nil]
  rw [count_newline_eq_one (by decide) (by decide),
    count_newline_eq_one (by decide) (by simpa using newline_not_mem_toString _),
    count_newline_eq_one (by decide) (hv (by simp)),
    count_newline_eq_one (by decide) (hv (by simp +contextual)),
    count_newline_eq_one (by decide) (hv (by simp +contextual)),
    count_newline_eq_one (by decide) (hv (by simp +contextual)),
    count_newline_eq_one (by decide) hnames,
    count_newline_eq_one (by decide) (by simpa using newline_not_mem_zoneText _)]
  rfl

/-- **Requests whose codes are on single lines and without loose dots share a text only if they ask
for the same thing.** -/
theorem sameAs_of_canonicalText_eq {a b : TableRequest} (ha : a.Accepted) (hb : b.Accepted)
    (hla : a.OnSingleLines) (hlb : b.OnSingleLines)
    (hd : ∀ x ∈ a.areas.ranges ++ a.categories.ranges, ¬x.LooseDot)
    (h : a.canonicalText = b.canonicalText) : a.SameAs b :=
  (sameAs_iff_lineFeeds_eq ha.wellFormed hb.wellFormed hd h).2
    (hla.lineFeeds_eq.trans hlb.lineFeeds_eq.symm)

end TableRequest

namespace BreaksRequest

/-- The label and the codes have no line feeds in them. -/
def OnSingleLines (r : BreaksRequest) : Prop :=
  ∀ x ∈ r.release.label :: r.categories, '\n' ∉ x.toList

theorem OnSingleLines.lineFeeds_eq {r : BreaksRequest} (h : r.OnSingleLines) :
    r.lineFeeds = List.replicate 6 1 := by
  have hnames : ∀ n ∈ r.areaTypes.map AreaType.name, '\n' ∉ n.toList := by
    intro n hn
    obtain ⟨t, -, rfl⟩ := List.mem_map.1 hn
    exact newline_not_mem_name t
  simp only [lineFeeds, fields, List.map_cons, List.map_nil]
  rw [count_newline_eq_one (by decide) (by decide),
    count_newline_eq_one (by decide) (by simpa using newline_not_mem_toString _),
    count_newline_eq_one (by decide) (by simpa using h _ List.mem_cons_self),
    count_newline_eq_one (by decide) (fun c hc => h c (List.mem_cons_of_mem _ hc)),
    count_newline_eq_one (by decide) hnames,
    count_newline_eq_one (by decide) (by simpa using newline_not_mem_repr _)]
  rfl

/-- **Requests for classes whose codes are on single lines share a text only if they ask for the
same thing.** -/
theorem sameAs_of_canonicalText_eq {a b : BreaksRequest} (ha : a.Accepted) (hb : b.Accepted)
    (hla : a.OnSingleLines) (hlb : b.OnSingleLines) (h : a.canonicalText = b.canonicalText) :
    a.SameAs b :=
  (sameAs_iff_lineFeeds_eq ha.wellFormed hb.wellFormed h).2
    (hla.lineFeeds_eq.trans hlb.lineFeeds_eq.symm)

end BreaksRequest

/-! ### Main results -/

/-- **Which requests are identified by their canonical texts.** A request for a table is identified
by its text, up to where the text is cut into lines, if and only if no dot of its ranges is loose; a
request for classes always is. -/
theorem canonicalText_identifies (a : TableRequest) (c d : BreaksRequest) :
    (a.Accepted →
      ((∀ b : TableRequest, b.Accepted → a.canonicalText = b.canonicalText →
          (a.SameAs b ↔ a.lineFeeds = b.lineFeeds)) ↔
        ∀ x ∈ a.areas.ranges ++ a.categories.ranges, ¬x.LooseDot)) ∧
      (c.Accepted → d.Accepted → c.canonicalText = d.canonicalText →
        (c.SameAs d ↔ c.lineFeeds = d.lineFeeds)) := by
  refine ⟨fun ha => ⟨fun h x hx hd => ?_, fun hd b hb h => ?_⟩, fun hc hd h => ?_⟩
  · obtain ⟨b, hb, htext, hlines, hne⟩ := TableRequest.exists_other_of_looseDot ha hx hd
    exact hne ((h b hb htext).2 hlines)
  · exact TableRequest.sameAs_iff_lineFeeds_eq ha.wellFormed hb.wellFormed hd h
  · exact BreaksRequest.sameAs_iff_lineFeeds_eq hc.wellFormed hd.wellFormed h

/-- Two orders of one selection have one text, and it is cut in the same places. -/
theorem canonicalText_identifies_orders :
    (∃ a b : TableRequest, TableRequest.ofParams {} [("rows", "A,B...C")] = .ok a ∧
      TableRequest.ofParams {} [("geocode", "B...C"), ("rows", "A,A")] = .ok b ∧
        a.canonicalText = b.canonicalText ∧ (a.SameAs b ↔ a.lineFeeds = b.lineFeeds)) ∧
      ∃ a b : BreaksRequest,
        BreaksRequest.ofParams {} [("cat", "X,Y"), ("geotype", "OA"), ("k", "2")] = .ok a ∧
        BreaksRequest.ofParams {} [("cat", "Y,X"), ("geotype", "oa"), ("k", "2")] = .ok b ∧
          a.canonicalText = b.canonicalText ∧ (a.SameAs b ↔ a.lineFeeds = b.lineFeeds) := by
  have ha : TableRequest.ofParams {} [("rows", "A,B...C")] =
      .ok ⟨{}, ⟨["A"], [⟨"B", "C"⟩]⟩, {}, [], [], none, none⟩ := by rfl
  have hb : TableRequest.ofParams {} [("geocode", "B...C"), ("rows", "A,A")] =
      .ok ⟨{}, ⟨["A", "A"], [⟨"B", "C"⟩]⟩, {}, [], [], none, none⟩ := by rfl
  have hc : BreaksRequest.ofParams {} [("cat", "X,Y"), ("geotype", "OA"), ("k", "2")] =
      .ok ⟨{}, ["X", "Y"], [.outputArea], 2, none⟩ := by rfl
  have hd : BreaksRequest.ofParams {} [("cat", "Y,X"), ("geotype", "oa"), ("k", "2")] =
      .ok ⟨{}, ["Y", "X"], [.outputArea], 2, none⟩ := by rfl
  have hloose : ¬CodeRange.LooseDot ⟨"B", "C"⟩ := by
    rintro (⟨f, hf, -⟩ | ⟨l, hl, -⟩)
    · simpa using congrArg List.getLast? hf
    · simp at hl
  have htable := TableRequest.SameAs.canonicalText_eq
    (a := ⟨{}, ⟨["A"], [⟨"B", "C"⟩]⟩, {}, [], [], none, none⟩)
    (b := ⟨{}, ⟨["A", "A"], [⟨"B", "C"⟩]⟩, {}, [], [], none, none⟩)
    ⟨rfl, ⟨by simp, by simp⟩, ⟨by simp, by simp⟩, by simp, by simp, rfl, rfl⟩
  have hbreaks := BreaksRequest.SameAs.canonicalText_eq
    (a := ⟨{}, ["X", "Y"], [.outputArea], 2, none⟩)
    (b := ⟨{}, ["Y", "X"], [.outputArea], 2, none⟩)
    ⟨rfl, fun c => by simp [or_comm], by simp, rfl, rfl⟩
  have hidentifies := canonicalText_identifies
    ⟨{}, ⟨["A"], [⟨"B", "C"⟩]⟩, {}, [], [], none, none⟩
    ⟨{}, ["X", "Y"], [.outputArea], 2, none⟩ ⟨{}, ["Y", "X"], [.outputArea], 2, none⟩
  refine ⟨⟨_, _, ha, hb, htable, ?_⟩, ⟨_, _, hc, hd, hbreaks, ?_⟩⟩
  · exact (hidentifies.1 ⟨_, _, ha⟩).2 (by simpa using hloose) _ ⟨_, _, hb⟩ htable
  · exact hidentifies.2 ⟨_, _, hc⟩ ⟨_, _, hd⟩ hbreaks

/-- Requests that ask for different things can have one text: a dot moves across the mark of a
range, or a line feed in a code is taken for the end of a line. -/
theorem canonicalText_collides :
    (∃ a b : TableRequest, TableRequest.ofParams {} [("rows", "A....B")] = .ok a ∧
      TableRequest.ofParams {} [("rows", "A. ...B")] = .ok b ∧
        a.canonicalText = b.canonicalText ∧ ¬a.SameAs b) ∧
      (∃ a b : TableRequest, TableRequest.ofParams {} [("rows", "A\ncols=X")] = .ok a ∧
        TableRequest.ofParams {} [("rows", "A"), ("cols", "X\ncols=")] = .ok b ∧
          a.canonicalText = b.canonicalText ∧ ¬a.SameAs b) ∧
        ∃ a b : BreaksRequest,
          BreaksRequest.ofParams {} [("cat", "C\ngeotype=OA\nk=3\ndivide_by=T"),
            ("geotype", "LAD"), ("k", "5")] = .ok a ∧
          BreaksRequest.ofParams {} [("cat", "C"), ("geotype", "OA"), ("k", "3"),
            ("divide_by", "T\ngeotype=LAD\nk=5\ndivide_by=")] = .ok b ∧
            a.canonicalText = b.canonicalText ∧ ¬a.SameAs b := by
  refine ⟨⟨⟨{}, ⟨[], [⟨"A", ".B"⟩]⟩, {}, [], [], none, none⟩,
      ⟨{}, ⟨[], [⟨"A.", "B"⟩]⟩, {}, [], [], none, none⟩, by rfl, by rfl, ?_, ?_⟩,
    ⟨⟨{}, ⟨["A\ncols=X"], []⟩, {}, [], [], none, none⟩,
      ⟨{}, ⟨["A"], []⟩, ⟨["X\ncols="], []⟩, [], [], none, none⟩, by rfl, by rfl, ?_, ?_⟩,
    ⟨⟨{}, ["C\ngeotype=OA\nk=3\ndivide_by=T"], [.district], 5, none⟩,
      ⟨{}, ["C"], [.outputArea], 3, some "T\ngeotype=LAD\nk=5\ndivide_by="⟩, by rfl, by rfl,
      ?_, ?_⟩⟩
  · simp [TableRequest.canonicalText, Selection.texts]
  · intro h
    simpa using h.areas.2 ⟨"A", ".B"⟩
  · rw [← String.toList_inj]
    simp [TableRequest.canonicalText, Selection.texts, toList_canonicalLine, joinedValues,
      Text.joinWith]
  · intro h
    simpa using h.areas.1 "A"
  · rw [← String.toList_inj]
    simp [BreaksRequest.canonicalText, toList_canonicalLine, joinedValues, Text.joinWith,
      AreaType.name]
    rfl
  · intro h
    simpa using h.classes

end Choropleth
