import Mathlib.Data.List.Forall2
import Choropleth.Proofs.Outcome
import Choropleth.Proofs.Text.Cutting
import Choropleth.Selection

/-!
# The grammar of selections

A token without the mark `...` is a code. A token with it has to be a range: read from left to
right it has exactly one mark, with more than blanks on both sides. Tokens are read if all those
with marks are ranges, and otherwise the first that is not is the error.

* `Token.IsRange`, `Token.Fits`: tokens that are ranges, and tokens of the grammar;
* `Token.ofChars_cases`: what a token is read as;
* `Selection.Lists`: a selection has the codes and ranges of tokens in their order;
* `Selection.addTokens_cases`: how the reading of tokens ends;
* `Selection.addTokens_append`: tokens behind others;
* `tokens_append`, `tokens_joinWith`: tokens depend on the values joined by commas only;
* `tokens_trim`: blanks around a value do not count.
-/

namespace Choropleth

/-! ### Tokens -/

namespace Token

/-- The token is a range: there is no mark behind its first one, and on either side of it stands a
code with blanks around it. -/
def IsRange (t first last : List Char) : Prop :=
  ∃ u v, Text.FirstMark t u v ∧ ¬Text.HasEllipsis v ∧
    Text.trim u = first ∧ Text.trim v = last ∧ first ≠ [] ∧ last ≠ []

/-- The token is one of the grammar: if it has a mark in it, it is a range. -/
def Fits (t : List Char) : Prop :=
  Text.HasEllipsis t → ∃ first last, IsRange t first last

theorem IsRange.hasEllipsis {t first last : List Char} (h : IsRange t first last) :
    Text.HasEllipsis t := by
  obtain ⟨u, v, huv, -⟩ := h
  exact huv.hasEllipsis

theorem ofChars_of_isRange {t first last : List Char} (h : IsRange t first last) :
    ofChars t = .range first last := by
  obtain ⟨u, v, huv, hv, hfirst, hlast, hne, hne'⟩ := h
  simp [ofChars, huv.ellipsisPieces_eq, Text.ellipsisPieces_of_not hv, hfirst, hlast, hne, hne']

theorem ofChars_of_not_fits {t : List Char} (h : ¬Fits t) : ofChars t = .malformed t := by
  rw [Fits, Classical.not_imp] at h
  obtain ⟨u, v, huv⟩ := Text.exists_firstMark h.1
  by_cases hv : Text.HasEllipsis v
  · -- a second mark makes three pieces at least
    obtain ⟨u', v', huv'⟩ := Text.exists_firstMark hv
    obtain ⟨p, ps, hp⟩ := List.exists_cons_of_ne_nil (Text.ellipsisPieces_ne_nil v')
    simp [ofChars, huv.ellipsisPieces_eq, huv'.ellipsisPieces_eq, hp]
  · have hblank : ¬(Text.trim u ≠ [] ∧ Text.trim v ≠ []) := fun hne =>
      h.2 ⟨_, _, u, v, huv, hv, rfl, rfl, hne.1, hne.2⟩
    simp only [ofChars, huv.ellipsisPieces_eq, Text.ellipsisPieces_of_not hv, List.map_cons,
      List.map_nil]
    exact if_neg hblank

theorem ofChars_of_not_hasEllipsis {t : List Char} (h : ¬Text.HasEllipsis t) :
    ofChars t = .code t := by
  simp [ofChars, Text.ellipsisPieces_of_not h]

theorem IsRange.unique {t first last first' last' : List Char} (h : IsRange t first last)
    (h' : IsRange t first' last') : first = first' ∧ last = last' :=
  Token.range.inj ((ofChars_of_isRange h).symm.trans (ofChars_of_isRange h'))

/-- A token is read as a code, as a range, or not at all. -/
theorem ofChars_cases (t : List Char) :
    (¬Text.HasEllipsis t ∧ ofChars t = .code t) ∨
      (∃ first last, IsRange t first last ∧ ofChars t = .range first last) ∨
        ¬Fits t ∧ ofChars t = .malformed t := by
  by_cases hm : Text.HasEllipsis t
  · by_cases hr : ∃ first last, IsRange t first last
    · obtain ⟨first, last, h⟩ := hr
      exact .inr (.inl ⟨first, last, h, ofChars_of_isRange h⟩)
    · have hnot : ¬Fits t := fun h => hr (h hm)
      exact .inr (.inr ⟨hnot, ofChars_of_not_fits hnot⟩)
  · exact .inl ⟨hm, ofChars_of_not_hasEllipsis hm⟩

end Token

/-! ### Selections -/

namespace Selection

/-- The codes of the selection are the tokens without marks, and its ranges are the others, in the
order of the tokens. -/
structure Lists (s : Selection) (ts : List (List Char)) : Prop where
  codes : s.codes.map String.toList = ts.filter fun t => ¬Text.HasEllipsis t
  ranges : List.Forall₂ (fun t r => Token.IsRange t r.first.toList r.last.toList)
    (ts.filter fun t => Text.HasEllipsis t) s.ranges

theorem lists_nil : Lists {} [] := ⟨rfl, .nil⟩

theorem Lists.cons_code {s : Selection} {ts : List (List Char)} (h : s.Lists ts) {t : List Char}
    (ht : ¬Text.HasEllipsis t) :
    Lists { s with codes := String.ofList t :: s.codes } (t :: ts) := by
  refine ⟨?_, ?_⟩
  · rw [List.filter_cons_of_pos (by simpa using ht), ← h.codes, List.map_cons, String.toList_ofList]
  · rw [List.filter_cons_of_neg (by simpa using ht)]
    exact h.ranges

theorem Lists.cons_range {s : Selection} {ts : List (List Char)} (h : s.Lists ts)
    {t first last : List Char} (ht : Token.IsRange t first last) :
    Lists { s with ranges := ⟨String.ofList first, String.ofList last⟩ :: s.ranges } (t :: ts) := by
  have hm := ht.hasEllipsis
  refine ⟨?_, ?_⟩
  · rw [List.filter_cons_of_neg (by simpa using hm)]
    exact h.codes
  · rw [List.filter_cons_of_pos (by simpa using hm)]
    refine .cons ?_ h.ranges
    rwa [String.toList_ofList, String.toList_ofList]

theorem Lists.mem_codes {s : Selection} {ts : List (List Char)} (h : s.Lists ts) (c : String) :
    c ∈ s.codes ↔ c.toList ∈ ts ∧ ¬Text.HasEllipsis c.toList := by
  rw [← List.mem_map_of_injective (f := String.toList) fun _ _ => String.toList_inj.1, h.codes]
  simp

theorem Lists.mem_ranges {s : Selection} {ts : List (List Char)} (h : s.Lists ts) (r : CodeRange) :
    r ∈ s.ranges ↔ ∃ t ∈ ts, Token.IsRange t r.first.toList r.last.toList := by
  constructor
  · intro hr
    obtain ⟨t, ht, hrange⟩ := Outcome.exists_of_mem_right h.ranges hr
    exact ⟨t, (List.mem_filter.1 ht).1, hrange⟩
  · rintro ⟨t, ht, hrange⟩
    have hmem : t ∈ ts.filter fun t => Text.HasEllipsis t :=
      List.mem_filter.2 ⟨ht, by simpa using hrange.hasEllipsis⟩
    obtain ⟨q, hq, hrange'⟩ := Outcome.exists_of_mem_left h.ranges hmem
    obtain ⟨hfirst, hlast⟩ := hrange.unique hrange'
    have hrq : r = q := congrArg₂ CodeRange.mk (String.toList_inj.1 hfirst)
      (String.toList_inj.1 hlast)
    exact hrq ▸ hq

/-- Tokens are read one after another, up to the first that is not one of the grammar. -/
theorem addTokens_cases (ts : List (List Char)) :
    ((∀ t ∈ ts, Token.Fits t) ∧ ∃ s, addTokens ts = .ok s ∧ s.Lists ts) ∨
      ∃ before t after, ts = before ++ t :: after ∧ (∀ u ∈ before, Token.Fits u) ∧ ¬Token.Fits t ∧
        addTokens ts = .error (.malformedRange (String.ofList t)) := by
  induction ts with
  | nil => exact .inl ⟨by simp, {}, rfl, lists_nil⟩
  | cons t ts ih =>
    rcases Token.ofChars_cases t with ⟨hm, hread⟩ | ⟨first, last, hr, hread⟩ | ⟨hnot, hread⟩
    · have hfits : Token.Fits t := fun h => absurd h hm
      rcases ih with ⟨hall, s, hs, hlists⟩ | ⟨before, u, after, rfl, hall, hu, he⟩
      · refine .inl ⟨List.forall_mem_cons.2 ⟨hfits, hall⟩, _, ?_, hlists.cons_code hm⟩
        rw [addTokens, hread, hs]
        rfl
      · refine .inr ⟨t :: before, u, after, rfl, List.forall_mem_cons.2 ⟨hfits, hall⟩, hu, ?_⟩
        rw [addTokens, hread, he]
        rfl
    · have hfits : Token.Fits t := fun _ => ⟨first, last, hr⟩
      rcases ih with ⟨hall, s, hs, hlists⟩ | ⟨before, u, after, rfl, hall, hu, he⟩
      · refine .inl ⟨List.forall_mem_cons.2 ⟨hfits, hall⟩, _, ?_, hlists.cons_range hr⟩
        rw [addTokens, hread, hs]
        rfl
      · refine .inr ⟨t :: before, u, after, rfl, List.forall_mem_cons.2 ⟨hfits, hall⟩, hu, ?_⟩
        rw [addTokens, hread, he]
        rfl
    · exact .inr ⟨[], t, ts, rfl, by simp, hnot, by rw [addTokens, hread]⟩

theorem addTokens_append {ts us : List (List Char)} {s s' : Selection} (hs : addTokens ts = .ok s)
    (hs' : addTokens us = .ok s') :
    addTokens (ts ++ us) = .ok ⟨s.codes ++ s'.codes, s.ranges ++ s'.ranges⟩ := by
  induction ts generalizing s with
  | nil =>
    obtain rfl := Except.ok.inj hs
    exact hs'
  | cons t ts ih =>
    rw [List.cons_append]
    unfold addTokens at hs ⊢
    split at hs
    · cases hs
    · next c hc =>
      obtain ⟨r, hr, rfl⟩ := Outcome.map_eq_ok.1 hs
      rw [ih hr]
      rfl
    · next first last hc =>
      obtain ⟨r, hr, rfl⟩ := Outcome.map_eq_ok.1 hs
      rw [ih hr]
      rfl

end Selection

/-! ### Values of a parameter -/

theorem tokens_append (vs ws : List (List Char)) : tokens (vs ++ ws) = tokens vs ++ tokens ws := by
  simp [tokens]

/-- A comma inside a value is as good as a new value. -/
theorem tokens_comma (v w : List Char) : tokens [v ++ ',' :: w] = tokens [v, w] := by
  simp [tokens, Text.pieces_append_sep]

/-- Blanks around a value do not count. -/
theorem tokens_trim (v : List Char) : tokens [Text.trim v] = tokens [v] := by
  obtain ⟨b, e, hb, he, hv⟩ := Text.exists_blanks_around v
  have hcomma {s : List Char} (hs : ∀ c ∈ s, Text.isBlank c = true) : ',' ∉ s := fun hc =>
    absurd (hs _ hc) (by decide)
  obtain ⟨first, rest, hpieces, hfront⟩ :=
    Text.exists_pieces_of_append (hcomma hb) (Text.trim v ++ e)
  obtain ⟨front, last, htrim, hback⟩ := Text.exists_pieces_append (Text.trim v) (hcomma he)
  have hmap : (Text.pieces ',' v).map Text.trim = (Text.pieces ',' (Text.trim v)).map Text.trim :=
    calc (Text.pieces ',' v).map Text.trim
        = (Text.pieces ',' (b ++ (Text.trim v ++ e))).map Text.trim := by rw [← hv]
      _ = (Text.pieces ',' (Text.trim v ++ e)).map Text.trim := by
        rw [hfront, hpieces, List.map_cons, List.map_cons, Text.trim_blanks_append hb]
      _ = (Text.pieces ',' (Text.trim v)).map Text.trim := by
        rw [hback, htrim, List.map_append, List.map_append, List.map_singleton, List.map_singleton,
          Text.trim_append_blanks he]
  simp only [tokens, List.flatMap_cons, List.flatMap_nil, List.append_nil, hmap]

/-- Values have the tokens that they have together with commas between them. -/
theorem tokens_joinWith (vs : List (List Char)) : tokens [Text.joinWith [','] vs] = tokens vs := by
  induction vs using Text.joinWith.induct with
  | case1 => rfl
  | case2 v => rfl
  | case3 v w vs ih =>
    rw [Text.joinWith, List.append_assoc, List.singleton_append, tokens_comma,
      ← List.singleton_append, tokens_append, ih]
    exact (tokens_append [v] (w :: vs)).symm

end Choropleth
