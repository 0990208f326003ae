import Choropleth.Proofs.Selection.Grammar

/-!
# What selections are made of

Reading a parameter gives codes and ranges of a certain form, and every selection of this form is
read from some parameter.

* `IsCode`: a text that is read as a code;
* `Selection.WellFormed`: a selection of codes and of ranges between codes;
* `wellFormed_of_parse`: the selections that are read are well formed;
* `selections_follow_grammar`: parameters are read exactly by the grammar;
* `parse_written`: a well-formed selection is read from its written form.
-/

namespace Choropleth

/-- A text that is read as a code: trimmed, not empty, without commas and without the mark of
ranges. -/
structure IsCode (s : List Char) : Prop where
  ne_nil : s ≠ []
  isTrimmed : Text.IsTrimmed s
  comma_not_mem : ',' ∉ s
  not_hasEllipsis : ¬Text.HasEllipsis s

namespace IsCode

/-- A part of a code is a code, unless it is empty or begins or ends with a blank. -/
theorem of_infix {s t : List Char} (h : IsCode s) (ht : t <:+: s) (hne : t ≠ [])
    (htrim : Text.IsTrimmed t) : IsCode t :=
  ⟨hne, htrim, fun hc => h.comma_not_mem (ht.subset hc), fun he => h.not_hasEllipsis (he.mono ht)⟩

end IsCode

/-- A range between codes. -/
structure CodeRange.WellFormed (r : CodeRange) : Prop where
  first : IsCode r.first.toList
  last : IsCode r.last.toList

/-- A selection of codes and of ranges between codes. -/
structure Selection.WellFormed (s : Selection) : Prop where
  codes : ∀ c ∈ s.codes, IsCode c.toList
  ranges : ∀ r ∈ s.ranges, r.WellFormed

/-! ### Reading -/

/-- Tokens are trimmed, not empty and without commas. -/
theorem mem_tokens {values : List (List Char)} {t : List Char} (h : t ∈ tokens values) :
    t ≠ [] ∧ Text.IsTrimmed t ∧ ',' ∉ t := by
  obtain ⟨hm, hne⟩ := List.mem_filter.1 h
  obtain ⟨p, hp, rfl⟩ := List.mem_map.1 hm
  obtain ⟨v, -, hv⟩ := List.mem_flatMap.1 hp
  exact ⟨by simpa using hne, Text.isTrimmed_trim p,
    fun hc => Text.not_mem_of_mem_pieces hv (Text.mem_of_mem_trim hc)⟩

theorem Token.IsRange.isCode {t first last : List Char} (h : IsRange t first last) (ht : ',' ∉ t) :
    IsCode first ∧ IsCode last := by
  obtain ⟨u, v, ⟨rfl, hu⟩, hv, rfl, rfl, hfirst, hlast⟩ := h
  have hcode {p : List Char} (hp : p <:+: u ++ '.' :: '.' :: '.' :: v) (hm : ¬Text.HasEllipsis p)
      (hne : Text.trim p ≠ []) : IsCode (Text.trim p) := by
    have htrim := Text.trim_infix_self p
    exact ⟨hne, Text.isTrimmed_trim p, fun hc => ht ((htrim.trans hp).subset hc),
      fun he => hm (he.mono htrim)⟩
  refine ⟨hcode (List.prefix_append u _).isInfix (fun he => hu ?_) hfirst,
    hcode (List.IsSuffix.isInfix ⟨u ++ ['.', '.', '.'], by simp⟩) hv hlast⟩
  exact he.mono (List.prefix_append u _).isInfix

namespace Selection

/-- The codes and ranges of tokens are well formed. -/
theorem Lists.wellFormed {s : Selection} {ts : List (List Char)} (h : s.Lists ts)
    (ht : ∀ t ∈ ts, t ≠ [] ∧ Text.IsTrimmed t ∧ ',' ∉ t) : s.WellFormed := by
  refine ⟨fun c hc => ?_, fun r hr => ?_⟩
  · obtain ⟨hmem, hm⟩ := (h.mem_codes c).1 hc
    obtain ⟨hne, htrim, hcomma⟩ := ht _ hmem
    exact ⟨hne, htrim, hcomma, hm⟩
  · obtain ⟨t, hmem, hrange⟩ := (h.mem_ranges r).1 hr
    obtain ⟨hfirst, hlast⟩ := hrange.isCode (ht t hmem).2.2
    exact ⟨hfirst, hlast⟩

theorem parse_cases (values : List String) :
    ((∀ t ∈ tokens (values.map String.toList), Token.Fits t) ∧
      ∃ s, parse values = .ok s ∧ s.Lists (tokens (values.map String.toList))) ∨
    ∃ before t after, tokens (values.map String.toList) = before ++ t :: after ∧
      (∀ u ∈ before, Token.Fits u) ∧ ¬Token.Fits t ∧
        parse values = .error (.malformedRange (String.ofList t)) :=
  addTokens_cases _

/-- **The selections that parameters describe are well formed.** -/
theorem wellFormed_of_parse {values : List String} {s : Selection} (h : parse values = .ok s) :
    s.WellFormed := by
  rcases parse_cases values with ⟨-, s', hs', hlists⟩ | ⟨before, t, after, -, -, -, he⟩
  · obtain rfl := Except.ok.inj (h.symm.trans hs')
    exact hlists.wellFormed fun _ => mem_tokens
  · cases h.symm.trans he

/-- Only the values joined by commas matter. -/
theorem parse_eq_of_joined {values others : List String}
    (h : Text.joinStrings "," values = Text.joinStrings "," others) :
    parse values = parse others := by
  have h := String.ofList_injective h
  rw [parse, parse, ← tokens_joinWith, ← tokens_joinWith (others.map _)]
  exact congrArg (fun v => addTokens (tokens [v])) h

theorem parse_append {values others : List String} {s s' : Selection} (hs : parse values = .ok s)
    (hs' : parse others = .ok s') :
    parse (values ++ others) = .ok ⟨s.codes ++ s'.codes, s.ranges ++ s'.ranges⟩ := by
  rw [parse, List.map_append, tokens_append]
  exact addTokens_append hs hs'

end Selection

/-- **Parameters are read exactly by the grammar of selections.** They are read if and only if all
their tokens with marks are ranges; then the selection lists the codes and ranges of the tokens in
their order, and these are trimmed, not empty and without commas and marks. Otherwise the error
shows the first token that is not one of the grammar. The values joined by commas decide about all
this, and values behind others add their codes and ranges behind those of the others. -/
theorem selections_follow_grammar (values : List String) :
    let ts := tokens (values.map String.toList)
    ((∃ s, Selection.parse values = .ok s) ↔ ∀ t ∈ ts, Token.Fits t) ∧
      (∀ s, Selection.parse values = .ok s → s.Lists ts ∧ s.WellFormed) ∧
      (∀ e, Selection.parse values = .error e →
        ∃ before t after, ts = before ++ t :: after ∧ (∀ u ∈ before, Token.Fits u) ∧
          ¬Token.Fits t ∧ e = .malformedRange (String.ofList t)) ∧
      (∀ others, Text.joinStrings "," values = Text.joinStrings "," others →
        Selection.parse values = Selection.parse others) ∧
      ∀ others s s', Selection.parse values = .ok s → Selection.parse others = .ok s' →
        Selection.parse (values ++ others) = .ok ⟨s.codes ++ s'.codes, s.ranges ++ s'.ranges⟩ := by
  intro ts
  rcases Selection.parse_cases values with
    ⟨hall, s, hs, hlists⟩ | ⟨before, t, after, hts, hall, ht, herror⟩
  · refine ⟨iff_of_true ⟨s, hs⟩ hall, fun s' hs' => ?_, fun e he => ?_,
      fun others => Selection.parse_eq_of_joined, fun others s s' => Selection.parse_append⟩
    · obtain rfl : s = s' := Except.ok.inj (hs.symm.trans hs')
      exact ⟨hlists, Selection.wellFormed_of_parse hs'⟩
    · cases hs.symm.trans he
  · have hmem : t ∈ ts := by
      rw [show ts = before ++ t :: after from hts]
      exact List.mem_append_right before List.mem_cons_self
    refine ⟨iff_of_false ?_ fun h => ht (h t hmem), fun s' hs' => ?_, fun e he => ?_,
      fun others => Selection.parse_eq_of_joined, fun others s s' => Selection.parse_append⟩
    · rintro ⟨s, hs⟩
      cases herror.symm.trans hs
    · cases herror.symm.trans hs'
    · exact ⟨before, t, after, hts, hall, ht, Except.error.inj (he.symm.trans herror)⟩

example : Selection.parse ["A, B....C", " ,D "] = .ok ⟨["A", "D"], [⟨"B", ".C"⟩]⟩ := by rfl

example : Selection.parse ["A......B,...", "C"] = .error (.malformedRange "A......B") := by rfl

/-! ### Writing -/

/-- A range as a parameter may have it, with blanks around the mark. -/
def CodeRange.written (r : CodeRange) : List Char :=
  r.first.toList ++ ' ' :: '.' :: '.' :: '.' :: ' ' :: r.last.toList

/-- A selection as the values of a parameter, one for each code and each range. -/
def Selection.written (s : Selection) : List String :=
  s.codes ++ s.ranges.map fun r => String.ofList r.written

theorem CodeRange.WellFormed.isRange_written {r : CodeRange} (h : r.WellFormed) :
    Token.IsRange r.written r.first.toList r.last.toList := by
  have hblank : ∀ c ∈ [' '], Text.isBlank c = true := List.forall_mem_singleton.2 (by decide)
  have hfirst : ¬Text.HasEllipsis (r.first.toList ++ [' ']) :=
    Text.not_hasEllipsis_append_blank h.first.not_hasEllipsis
  refine ⟨r.first.toList ++ [' '], ' ' :: r.last.toList,
    ⟨by simp [CodeRange.written], Text.not_hasEllipsis_append_dots hfirst (by simp)⟩,
    Text.not_hasEllipsis_cons_blank h.last.not_hasEllipsis,
    (Text.trim_append_blanks hblank _).trans (Text.trim_eq_self h.first.isTrimmed),
    (Text.trim_blanks_append hblank _).trans (Text.trim_eq_self h.last.isTrimmed),
    h.first.ne_nil, h.last.ne_nil⟩

/-- A text in which commas and blanks at the ends have no part is a token of its own. -/
theorem tokens_eq_self {ts : List (List Char)}
    (h : ∀ t ∈ ts, t ≠ [] ∧ Text.IsTrimmed t ∧ ',' ∉ t) : tokens ts = ts := by
  have hpieces : ts.flatMap (Text.pieces ',') = ts := by
    rw [List.flatMap_congr fun t ht => Text.pieces_of_not_mem (h t ht).2.2]
    exact List.flatMap_singleton' ts
  have htrim : ts.map Text.trim = ts := by
    rw [List.map_congr_left fun t ht => Text.trim_eq_self (h t ht).2.1]
    exact List.map_id ts
  rw [tokens, hpieces, htrim, List.filter_eq_self]
  intro t ht
  simpa using (h t ht).1

namespace CodeRange

theorem written_ne_nil (r : CodeRange) : r.written ≠ [] := by simp [written]

theorem comma_not_mem_written {r : CodeRange} (h : r.WellFormed) : ',' ∉ r.written := by
  simp [written, h.first.comma_not_mem, h.last.comma_not_mem]

theorem isTrimmed_written {r : CodeRange} (h : r.WellFormed) : Text.IsTrimmed r.written := by
  refine Text.isTrimmed_append h.first.ne_nil (List.cons_ne_nil _ _) h.first.isTrimmed.1 ?_
  have := h.last.isTrimmed.2
  have hne := h.last.ne_nil
  simpa [List.getLast?_cons, List.getLast?_eq_some_getLast hne] using this

end CodeRange

namespace Selection

theorem addTokens_codes {cs : List (List Char)} (h : ∀ c ∈ cs, IsCode c) :
    addTokens cs = .ok ⟨cs.map String.ofList, []⟩ := by
  induction cs with
  | nil => rfl
  | cons c cs ih =>
    have hc := h c List.mem_cons_self
    rw [addTokens, Token.ofChars_of_not_hasEllipsis hc.not_hasEllipsis,
      ih fun d hd => h d (List.mem_cons_of_mem c hd)]
    rfl

theorem addTokens_ranges {rs : List CodeRange} (h : ∀ r ∈ rs, r.WellFormed) :
    addTokens (rs.map CodeRange.written) = .ok ⟨[], rs⟩ := by
  induction rs with
  | nil => rfl
  | cons r rs ih =>
    have hr := h r List.mem_cons_self
    rw [List.map_cons, addTokens, Token.ofChars_of_isRange hr.isRange_written,
      ih fun q hq => h q (List.mem_cons_of_mem r hq)]
    simp [Except.map]

/-- **A well-formed selection is read from its written form.** -/
theorem parse_written {s : Selection} (h : s.WellFormed) : parse s.written = .ok s := by
  have hvalues : s.written.map String.toList =
      s.codes.map String.toList ++ s.ranges.map CodeRange.written := by
    simp [written]
  have htokens : tokens (s.written.map String.toList) =
      s.codes.map String.toList ++ s.ranges.map CodeRange.written := by
    rw [hvalues]
    refine tokens_eq_self fun t ht => ?_
    rcases List.mem_append.1 ht with ht | ht
    · obtain ⟨c, hc, rfl⟩ := List.mem_map.1 ht
      have hw := h.codes c hc
      exact ⟨hw.ne_nil, hw.isTrimmed, hw.comma_not_mem⟩
    · obtain ⟨r, hr, rfl⟩ := List.mem_map.1 ht
      have hw := h.ranges r hr
      exact ⟨r.written_ne_nil, CodeRange.isTrimmed_written hw, CodeRange.comma_not_mem_written hw⟩
  have hcodes : ∀ c ∈ s.codes.map String.toList, IsCode c := by simpa using h.codes
  rw [parse, htokens, addTokens_append (addTokens_codes hcodes) (addTokens_ranges h.ranges)]
  simp

end Selection
end Choropleth
