import Mathlib.Logic.Relation
import Choropleth.Proofs.Request.Identity
import Choropleth.Proofs.Selection.Readings

/-!
# Spellings of requests

A list of codes can be spread over parameters in many ways: in one value or in several, under
either of two names, in any order, with repetitions and with blanks. None of this is seen in the
key of a request.

* `Params.Form`: which names are read, and how; `TableRequest.form`, `BreaksRequest.form`;
* `Params.SpellsAlike`: parameters with the same tokens and the same first values;
* `TableRequest.ofParams_alike`, `BreaksRequest.ofParams_alike`: requests that are spelled alike;
* `Params.Change`, `Params.Respelled`: changes of the spelling, one after another;
* `Params.Change.spellsAlike`: none is seen in the tokens or in the first values;
* `spelling_is_invisible`: spellings of a request have the same key, or all of them are refused.
-/

namespace Choropleth

namespace Params

/-! ### Parameters that are spelled alike -/

/-- How parameters are read besides the area types: lists of codes, each under some names, and
names of which the first value counts. -/
structure Form where
  lists : List (List String)
  singles : List String

/-- The names are read for some list. -/
def Form.HasList (f : Form) (names : List String) : Prop := names = ["geotype"] ∨ names ∈ f.lists

/-- The name is read at all. -/
def Form.Reads (f : Form) (name : String) : Prop :=
  name ∈ f.singles ∨ ∃ names, f.HasList names ∧ name ∈ names

/-- The tokens of the values of any of the names. -/
def tokens (params : Params) (names : List String) : List (List Char) :=
  Choropleth.tokens ((params.allOf names).map String.toList)

/-- The parameters have the same set of tokens for every list, those of area types with ASCII
letters in either case, and the same first value of every name of which it counts. -/
structure SpellsAlike (f : Form) (p q : Params) : Prop where
  lists : ∀ names ∈ f.lists, ∀ t, t ∈ p.tokens names ↔ t ∈ q.tokens names
  areaTypes : ∀ n, n ∈ (p.tokens ["geotype"]).map (List.map Char.toUpper) ↔
    n ∈ (q.tokens ["geotype"]).map (List.map Char.toUpper)
  singles : ∀ name ∈ f.singles, p.first? name = q.first? name

end Params

/-- The parameters of a request for a table. -/
def TableRequest.form : Params.Form where
  lists := [["rows", "geocode"], ["cols", "cat"], ["censustable"]]
  singles := ["bbox", "location", "radius", "polygon", "divide_by"]

/-- The parameters of a request for classes. -/
def BreaksRequest.form : Params.Form where
  lists := [["cat"]]
  singles := ["k", "divide_by"]

/-! ### Requests that are spelled alike -/

theorem isEmpty_eq_of_mem_iff {α : Type} {as bs : List α} (h : ∀ a, a ∈ as ↔ a ∈ bs) :
    as.isEmpty = bs.isEmpty := by
  have hiff : as.isEmpty = true ↔ bs.isEmpty = true := by
    simp only [List.isEmpty_iff, List.eq_nil_iff_forall_not_mem, h]
  exact Bool.eq_iff_iff.2 hiff

namespace Params.SpellsAlike

variable {f : Form} {p q : Params} (h : p.SpellsAlike f q)

include h

theorem parse_alike {names : List String} (hn : names ∈ f.lists) :
    Outcome.Alike (fun _ _ => True) Selection.SameAs (Selection.parse (p.allOf names))
      (Selection.parse (q.allOf names)) := by
  have hmem := h.lists names hn
  simp only [Params.tokens] at hmem
  refine (Selection.okIff_parse _).alike (Selection.okIff_parse _) ?_ fun s t hs ht => ⟨?_, ?_⟩
  · simp only [hmem]
  · intro c
    rw [hs.mem_codes, ht.mem_codes, hmem]
  · intro r
    simp only [hs.mem_ranges, ht.mem_ranges, hmem]

theorem parseCodes_alike {name : String} (hn : [name] ∈ f.lists) (param : String) :
    Outcome.Alike (fun _ _ => True) (fun cs ds => ∀ c, c ∈ cs ↔ c ∈ ds)
      (parseCodes (p.all name) param) (parseCodes (q.all name) param) := by
  have hmem := h.lists [name] hn
  simp only [Params.tokens, ← Params.all_eq_allOf] at hmem
  refine (okIff_parseCodes _ param).alike (okIff_parseCodes _ param) ?_ fun cs ds hcs hds c => ?_
  · simp only [hmem]
  · simp only [hcs, hds, List.mem_map, hmem]

theorem parseAreaTypes_alike :
    Outcome.Alike (fun _ _ => True) (fun ts us => ∀ t, t ∈ ts ↔ t ∈ us)
      (parseAreaTypes (p.all "geotype")) (parseAreaTypes (q.all "geotype")) := by
  have hmem := h.areaTypes
  simp only [Params.tokens, ← Params.all_eq_allOf] at hmem
  refine (okIff_parseAreaTypes _).alike (okIff_parseAreaTypes _) ?_ fun ts us hts hus t => ?_
  · simp only [hmem]
  · simp only [hts, hus, hmem]

end Params.SpellsAlike

theorem Selection.SameAs.isEmpty_eq {s t : Selection} (h : s.SameAs t) : s.isEmpty = t.isEmpty := by
  rw [isEmpty, isEmpty, isEmpty_eq_of_mem_iff h.1, isEmpty_eq_of_mem_iff h.2]

theorem TableRequest.SameAs.isSelective_eq {a b : TableRequest} (h : a.SameAs b) :
    a.isSelective = b.isSelective := by
  simp only [isSelective, h.areas.isEmpty_eq, h.categories.isEmpty_eq,
    isEmpty_eq_of_mem_iff h.tables, h.zone]

theorem TableRequest.ofParams_alike (release : Release) {p q : Params}
    (h : p.SpellsAlike form q) :
    Outcome.Alike (fun _ _ => True) SameAs (ofParams release p) (ofParams release q) := by
  have hzone : zoneOfParams p = zoneOfParams q := by
    simp only [zoneOfParams, zoneParams, h.singles "bbox" (by decide),
      h.singles "location" (by decide), h.singles "radius" (by decide),
      h.singles "polygon" (by decide)]
  unfold ofParams
  refine (h.parse_alike (by decide)).bind fun areas areas' hareas => ?_
  refine (h.parse_alike (by decide)).bind fun categories categories' hcategories => ?_
  refine (h.parseCodes_alike (by decide) _).bind fun tables tables' htables => ?_
  refine h.parseAreaTypes_alike.bind fun types types' htypes => ?_
  rw [hzone, h.singles "divide_by" (by decide)]
  cases zoneOfParams q with
  | error e => exact .error trivial
  | ok zone =>
    have hsame : SameAs
        ⟨release, areas, categories, tables, types, zone, q.first? "divide_by"⟩
        ⟨release, areas', categories', tables', types', zone, q.first? "divide_by"⟩ :=
      ⟨rfl, hareas, hcategories, htables, htypes, rfl, rfl⟩
    change Outcome.Alike _ _ (if _ then Except.ok _ else Except.error _)
      (if _ then Except.ok _ else Except.error _)
    rw [hsame.isSelective_eq]
    split
    · exact .ok hsame
    · exact .error trivial

theorem BreaksRequest.ofParams_alike (release : Release) {p q : Params}
    (h : p.SpellsAlike form q) :
    Outcome.Alike (fun _ _ => True) SameAs (ofParams release p) (ofParams release q) := by
  unfold ofParams
  refine (h.parseCodes_alike (by decide) _).bind fun categories categories' hcategories => ?_
  refine Outcome.Alike.guard (iff_of_eq (by rw [isEmpty_eq_of_mem_iff hcategories])) trivial
    fun _ => ?_
  refine h.parseAreaTypes_alike.bind fun types types' htypes => ?_
  refine Outcome.Alike.guard (iff_of_eq (by rw [isEmpty_eq_of_mem_iff htypes])) trivial
    fun _ => ?_
  rw [h.singles "k" (by decide), h.singles "divide_by" (by decide)]
  cases classesOfParam (q.first? "k") with
  | error e => exact .error trivial
  | ok classes => exact .ok ⟨rfl, hcategories, htypes, rfl, rfl⟩

/-! ### Changes of the spelling -/

namespace Params

theorem mem_tokens_cons {n v : String} {p : Params} {names : List String} {t : List Char} :
    t ∈ tokens ((n, v) :: p) names ↔
      (n ∈ names ∧ t ∈ Choropleth.tokens [v.toList]) ∨ t ∈ p.tokens names := by
  by_cases hn : n ∈ names
  · have hcons : tokens ((n, v) :: p) names = Choropleth.tokens [v.toList] ++ p.tokens names := by
      rw [tokens, tokens, ← tokens_append]
      simp [allOf, hn]
    rw [hcons, List.mem_append, and_iff_right hn]
  · simp [tokens, allOf, hn]

theorem tokens_append (p q : Params) (names : List String) :
    (p ++ q).tokens names = p.tokens names ++ q.tokens names := by
  simp [tokens, allOf, Choropleth.tokens_append]

theorem first?_cons {n v : String} {p : Params} {name : String} :
    first? ((n, v) :: p) name =
      if n = name ∧ Text.trimString v ≠ "" then some (Text.trimString v) else p.first? name := by
  by_cases hn : n = name
  · by_cases hv : Text.trimString v = ""
    · simp [first?, all, hn, hv]
    · simp [first?, all, hn, hv]
  · simp [first?, all, hn]

theorem first?_append (p q : Params) (name : String) :
    (p ++ q).first? name = (p.first? name).or (q.first? name) := by
  simp only [first?, all, List.filter_append, List.map_append, List.find?_append]

/-- One change of the spelling: of a parameter that is not read, of the order of parameters, of a
repetition, of values that are joined by a comma, of blanks, or of a name for another one of the
same lists. -/
inductive Change (f : Form) : Params → Params → Prop
  | unread {n v : String} (h : ¬f.Reads n) : Change f [(n, v)] []
  | swapped {n v m w : String} (h : n ≠ m ∨ n ∉ f.singles) :
      Change f [(n, v), (m, w)] [(m, w), (n, v)]
  | repeated {n v : String} : Change f [(n, v), (n, v)] [(n, v)]
  | joined {n v w : String} (h : n ∉ f.singles) :
      Change f [(n, v), (n, w)] [(n, v ++ "," ++ w)]
  | blanks {n v w : String} (h : Text.trimString v = Text.trimString w) :
      Change f [(n, v)] [(n, w)]
  | blank {n v : String} (h : Text.trimString v = "") : Change f [(n, v)] []
  | renamed {n m v : String} (h : ∀ names, f.HasList names → (n ∈ names ↔ m ∈ names))
      (hn : n ∉ f.singles) (hm : m ∉ f.singles) : Change f [(n, v)] [(m, v)]

/-- The parameters come from each other by changes in any places. -/
def Respelled (f : Form) : Params → Params → Prop :=
  Relation.EqvGen fun p q => ∃ before xs ys after, Change f xs ys ∧
    p = before ++ xs ++ after ∧ q = before ++ ys ++ after

namespace SpellsAlike

variable {f : Form} {p q r : Params}

theorem refl (f : Form) (p : Params) : p.SpellsAlike f p :=
  ⟨fun _ _ _ => .rfl, fun _ => .rfl, fun _ _ => rfl⟩

theorem symm (h : p.SpellsAlike f q) : q.SpellsAlike f p :=
  ⟨fun names hn t => (h.lists names hn t).symm, fun n => (h.areaTypes n).symm,
    fun name hn => (h.singles name hn).symm⟩

theorem trans (h : p.SpellsAlike f q) (h' : q.SpellsAlike f r) : p.SpellsAlike f r :=
  ⟨fun names hn t => (h.lists names hn t).trans (h'.lists names hn t),
    fun n => (h.areaTypes n).trans (h'.areaTypes n),
    fun name hn => (h.singles name hn).trans (h'.singles name hn)⟩

theorem append {p' q' : Params} (h : p.SpellsAlike f q) (h' : p'.SpellsAlike f q') :
    (p ++ p').SpellsAlike f (q ++ q') := by
  refine ⟨fun names hn t => ?_, fun n => ?_, fun name hn => ?_⟩
  · rw [tokens_append, tokens_append, List.mem_append, List.mem_append, h.lists names hn,
      h'.lists names hn]
  · rw [tokens_append, tokens_append, List.map_append, List.map_append, List.mem_append,
      List.mem_append, h.areaTypes, h'.areaTypes]
  · rw [first?_append, first?_append, h.singles name hn, h'.singles name hn]

theorem of_hasList (hl : ∀ names, f.HasList names → ∀ t, t ∈ p.tokens names ↔ t ∈ q.tokens names)
    (hs : ∀ name ∈ f.singles, p.first? name = q.first? name) : p.SpellsAlike f q := by
  refine ⟨fun names hn => hl names (.inr hn), fun n => ?_, hs⟩
  simp only [List.mem_map, hl ["geotype"] (.inl rfl)]

end SpellsAlike

/-- No change is seen in the tokens or in the first values. -/
theorem Change.spellsAlike {f : Form} {p q : Params} (h : Change f p q) : p.SpellsAlike f q := by
  cases h with
  | @unread n v h =>
    refine .of_hasList (fun names hn t => ?_) fun name hn => ?_
    · have hnot : n ∉ names := fun hm => h (.inr ⟨names, hn, hm⟩)
      simp [mem_tokens_cons, hnot]
    · have hne : n ≠ name := fun he => h (.inl (he ▸ hn))
      simp [first?_cons, hne]
  | @swapped n v m w h =>
    refine .of_hasList (fun names _ t => ?_) fun name hn => ?_
    · simp only [mem_tokens_cons]
      exact or_left_comm
    · simp only [first?_cons]
      have hne : ¬(n = name ∧ m = name) := by
        rintro ⟨rfl, rfl⟩
        exact h.elim (fun h => h rfl) fun h => h hn
      split <;> split <;> simp_all
  | @repeated n v =>
    refine .of_hasList (fun names _ t => ?_) fun name _ => ?_
    · simp [mem_tokens_cons]
    · simp only [first?_cons]
      split <;> rfl
  | @joined n v w h =>
    have htokens (t : List Char) : t ∈ Choropleth.tokens [(v ++ "," ++ w).toList] ↔
        t ∈ Choropleth.tokens [v.toList] ∨ t ∈ Choropleth.tokens [w.toList] := by
      have hcomma : (v ++ "," ++ w).toList = v.toList ++ ',' :: w.toList := by simp
      rw [hcomma, tokens_comma, ← List.mem_append, ← Choropleth.tokens_append]
      rfl
    refine .of_hasList (fun names _ t => ?_) fun name hn => ?_
    · simp only [mem_tokens_cons, htokens]
      tauto
    · have hne : n ≠ name := fun he => h (he ▸ hn)
      simp [first?_cons, hne]
  | @blanks n v w h =>
    have htrim : Text.trim v.toList = Text.trim w.toList := String.ofList_injective h
    have htokens : Choropleth.tokens [v.toList] = Choropleth.tokens [w.toList] := by
      rw [← tokens_trim, htrim, tokens_trim]
    refine .of_hasList (fun names _ t => ?_) fun name _ => ?_
    · rw [mem_tokens_cons, mem_tokens_cons, htokens]
    · rw [first?_cons, first?_cons, h]
  | @blank n v h =>
    have htrim : Text.trim v.toList = [] := String.ofList_injective h
    have htokens : Choropleth.tokens [v.toList] = [] := by
      rw [← tokens_trim, htrim]
      rfl
    refine .of_hasList (fun names _ t => ?_) fun name _ => ?_
    · simp [mem_tokens_cons, htokens]
    · simp [first?_cons, h]
  | @renamed n m v h hn hm =>
    refine .of_hasList (fun names hnames t => ?_) fun name hname => ?_
    · rw [mem_tokens_cons, mem_tokens_cons, h names hnames]
    · have hne : n ≠ name := fun he => hn (he ▸ hname)
      have hne' : m ≠ name := fun he => hm (he ▸ hname)
      simp [first?_cons, hne, hne']

theorem Respelled.spellsAlike {f : Form} {p q : Params} (h : p.Respelled f q) :
    p.SpellsAlike f q := by
  induction h with
  | rel p q h =>
    obtain ⟨before, xs, ys, after, hchange, rfl, rfl⟩ := h
    exact ((SpellsAlike.refl f before).append hchange.spellsAlike).append (.refl f after)
  | refl p => exact .refl f p
  | symm p q _ ih => exact ih.symm
  | trans p q r _ _ ih ih' => exact ih.trans ih'

end Params

/-- **The spelling of parameters is not seen in the key of a request.** Parameters with the same
sets of tokens and the same first values are all refused, or all are requests for the same thing
with the same key. Parameters that are not read, the order of parameters, repetitions, joined
values, blanks, and names for the same lists never matter to this. -/
theorem spelling_is_invisible (release : Release) (p q : Params) :
    (p.SpellsAlike TableRequest.form q →
      Outcome.Alike (fun _ _ => True) (fun a b => a.SameAs b ∧ a.key = b.key)
        (TableRequest.ofParams release p) (TableRequest.ofParams release q)) ∧
      (p.SpellsAlike BreaksRequest.form q →
        Outcome.Alike (fun _ _ => True) (fun a b => a.SameAs b ∧ a.key = b.key)
          (BreaksRequest.ofParams release p) (BreaksRequest.ofParams release q)) ∧
        ∀ f, p.Respelled f q → p.SpellsAlike f q := by
  refine ⟨fun h => ?_, fun h => ?_, fun f h => h.spellsAlike⟩
  · refine (TableRequest.ofParams_alike release h).mono (fun _ _ => id) fun a b hab => ⟨hab, ?_⟩
    rw [TableRequest.key, TableRequest.key, hab.canonicalText_eq]
  · refine (BreaksRequest.ofParams_alike release h).mono (fun _ _ => id) fun a b hab => ⟨hab, ?_⟩
    rw [BreaksRequest.key, BreaksRequest.key, hab.canonicalText_eq]

/-- Two spellings of a request for a table, two of a request for classes, and two that come from
each other. -/
theorem spelling_is_invisible_of_orders :
    let p : Params := [("rows", "E02,E01"), ("geotype", "LSOA")]
    let q : Params := [("geotype", " lsoa "), ("geocode", "E01"), ("view", "map"),
      ("rows", " E02 ,,E01")]
    let p' : Params := [("cat", "X,Y"), ("geotype", "OA"), ("k", "2")]
    let q' : Params := [("k", " 2"), ("cat", "Y"), ("geotype", "oa,OA"), ("k", "3"), ("cat", "X")]
    let p₀ : Params := [("rows", "E01"), ("view", "map"), ("rows", " E02")]
    let q₀ : Params := [("rows", "E01, E02")]
    p.SpellsAlike TableRequest.form q ∧ p'.SpellsAlike BreaksRequest.form q' ∧
      (∃ a b, TableRequest.ofParams {} p = .ok a ∧ TableRequest.ofParams {} q = .ok b ∧
        a ≠ b ∧ a.key = b.key) ∧
      (∃ a b, BreaksRequest.ofParams {} p' = .ok a ∧ BreaksRequest.ofParams {} q' = .ok b ∧
        a ≠ b ∧ a.key = b.key) ∧
        p₀.Respelled TableRequest.form q₀ ∧ p₀.SpellsAlike TableRequest.form q₀ := by
  intro p q p' q' p₀ q₀
  have hp : TableRequest.ofParams {} p =
      .ok ⟨{}, ⟨["E02", "E01"], []⟩, {}, [], [.lowerLayer], none, none⟩ := by rfl
  have hq : TableRequest.ofParams {} q =
      .ok ⟨{}, ⟨["E01", "E02", "E01"], []⟩, {}, [], [.lowerLayer], none, none⟩ := by rfl
  have hp' : BreaksRequest.ofParams {} p' = .ok ⟨{}, ["X", "Y"], [.outputArea], 2, none⟩ := by rfl
  have hq' : BreaksRequest.ofParams {} q' =
      .ok ⟨{}, ["Y", "X"], [.outputArea, .outputArea], 2, none⟩ := by rfl
  have h : p.SpellsAlike TableRequest.form q := by
    have hlists : ∀ names ∈ TableRequest.form.lists, (∀ t ∈ p.tokens names, t ∈ q.tokens names) ∧
        ∀ t ∈ q.tokens names, t ∈ p.tokens names := by decide
    have htypes : (p.tokens ["geotype"]).map (List.map Char.toUpper) =
        (q.tokens ["geotype"]).map (List.map Char.toUpper) := by rfl
    exact ⟨fun names hn t => ⟨(hlists names hn).1 t, (hlists names hn).2 t⟩,
      fun n => by rw [htypes], by decide⟩
  have h' : p'.SpellsAlike BreaksRequest.form q' := by
    have hlists : ∀ names ∈ BreaksRequest.form.lists,
        (∀ t ∈ p'.tokens names, t ∈ q'.tokens names) ∧
          ∀ t ∈ q'.tokens names, t ∈ p'.tokens names := by decide
    have htypes : (p'.tokens ["geotype"]).map (List.map Char.toUpper) = ["OA".toList] := by rfl
    have htypes' : (q'.tokens ["geotype"]).map (List.map Char.toUpper) =
        ["OA".toList, "OA".toList] := by rfl
    exact ⟨fun names hn t => ⟨(hlists names hn).1 t, (hlists names hn).2 t⟩,
      fun n => by simp [htypes, htypes'], by decide⟩
  have h₀ : p₀.Respelled TableRequest.form q₀ := by
    have hunread : ¬TableRequest.form.Reads "view" := by
      simp [Params.Form.Reads, Params.Form.HasList, TableRequest.form]
    exact .trans _ [("rows", "E01"), ("rows", " E02")] _
      (.rel _ _ ⟨[("rows", "E01")], [("view", "map")], [], [("rows", " E02")], .unread hunread,
        rfl, rfl⟩)
      (.rel _ _ ⟨[], [("rows", "E01"), ("rows", " E02")], [("rows", "E01, E02")], [],
        .joined (by decide), rfl, rfl⟩)
  have htable := (spelling_is_invisible {} p q).1 h
  have hbreaks := (spelling_is_invisible {} p' q').2.1 h'
  rw [hp, hq] at htable
  rw [hp', hq'] at hbreaks
  refine ⟨h, h', ⟨_, _, hp, hq, by decide, ?_⟩, ⟨_, _, hp', hq', by decide, ?_⟩, h₀,
    (spelling_is_invisible {} p₀ q₀).2.2 TableRequest.form h₀⟩
  · cases htable with
    | ok hab => exact hab.2
  · cases hbreaks with
    | ok hab => exact hab.2

end Choropleth
