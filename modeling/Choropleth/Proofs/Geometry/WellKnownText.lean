import Mathlib.Data.List.Forall2
import Choropleth.Proofs.Geometry.ZoneText

/-!
# Rings in well-known text

A ring goes to the store as well-known text. A reader of that text finds the points of the ring in
their order, and no other points.

* `Position.IsSpelled`: a text has the coordinates of a position;
* `IsPolygonText`, `IsPolygonText.eq`: a text has the points of a ring, and of one ring at most;
* `isPolygonText_wellKnownText`: the text of a ring has its points.
-/

namespace Choropleth

open Decimal (IsNumeral)

/-! ### Numbers -/

theorem isNumeral_of_mem_tableNumber {x : Float} (hx : x.isFinite = true) :
    ∀ c ∈ (tableNotation.write x).toList, IsNumeral c := fun _ hc =>
  tableNotation.isNumeral_of_mem_write (.inl rfl) (Notation.unpacked_of_isFinite hx) hc

theorem Decimal.IsNumeral.isBlank {c : Char} (h : IsNumeral c) : Text.isBlank c = false := by
  rcases h with h | h
  · simp only [Number.isDigit, Bool.and_eq_true, decide_eq_true_eq] at h
    have hlow : 48 ≤ c.toNat := h.1
    have hhigh : c.toNat ≤ 57 := h.2
    simp [Text.isBlank, Text.blankRanges]
    omega
  · simp only [List.mem_cons, List.not_mem_nil, or_false] at h
    rcases h with rfl | rfl | rfl | rfl <;> decide

theorem not_mem_of_isNumeral {s : List Char} (h : ∀ c ∈ s, IsNumeral c) {c : Char}
    (hd : Number.isDigit c = false) (hc : c ∉ ['.', 'e', '+', '-']) : c ∉ s := by
  intro hs
  rcases h c hs with h | h
  · rw [hd] at h
    cases h
  · exact hc h

theorem Number.Spells.ne_nil {s : List Char} {x : Float} (h : Spells s x) : s ≠ [] := by
  rintro rfl
  obtain ⟨body, d, hs, hd, -⟩ := h
  split at hs
  · cases hs
  · rw [← hs] at hd
    cases hd

/-! ### Positions -/

/-- The text has the two coordinates with a blank between them. -/
def Position.IsSpelled (s : List Char) (p : Position) : Prop :=
  List.Forall₂ Number.Spells (Text.pieces ' ' (Text.trim s)) [p.lon, p.lat]

theorem rightUnique_spells : Relator.RightUnique Number.Spells := fun _ _ _ hx hy => hx.eq hy

theorem rightUnique_isSpelled : Relator.RightUnique Position.IsSpelled := by
  intro s p q hp hq
  have h := List.right_unique_forall₂' rightUnique_spells hp hq
  cases p
  cases q
  simpa using h

/-- The point in well-known text has the coordinates, also after blanks. -/
theorem Position.isSpelled_pointText {p : Position} (h : p.IsFinite) {b : List Char}
    (hb : ∀ c ∈ b, Text.isBlank c = true) : p.IsSpelled (b ++ (Zone.pointText p).toList) := by
  have hlon := isNumeral_of_mem_tableNumber h.1
  have hlat := isNumeral_of_mem_tableNumber h.2
  have hslon := Notation.spells_write (f := tableNotation) (.inl rfl) h.1
  have hslat := Notation.spells_write (f := tableNotation) (.inl rfl) h.2
  have htext : (Zone.pointText p).toList =
      (tableNotation.write p.lon).toList ++ ' ' :: (tableNotation.write p.lat).toList := by
    simp [Zone.pointText]
  have htrim : Text.IsTrimmed (Zone.pointText p).toList := by
    rw [htext]
    refine Text.isTrimmed_append hslon.ne_nil (List.cons_ne_nil _ _)
      (fun c hc => (hlon c (List.mem_of_mem_head? hc)).isBlank) fun c hc => ?_
    rw [← List.singleton_append, List.getLast?_append_of_ne_nil _ hslat.ne_nil] at hc
    exact (hlat c (List.mem_of_getLast? hc)).isBlank
  rw [IsSpelled, Text.trim_blanks_append hb, Text.trim_eq_self htrim, htext,
    Text.pieces_append_cons (not_mem_of_isNumeral hlon (by decide) (by decide)),
    Text.pieces_of_not_mem (not_mem_of_isNumeral hlat (by decide) (by decide))]
  exact .cons hslon (.cons hslat .nil)

theorem comma_not_mem_pointText {p : Position} (h : p.IsFinite) :
    ',' ∉ (Zone.pointText p).toList := by
  have hlon := not_mem_of_isNumeral (isNumeral_of_mem_tableNumber h.1) (c := ',') (by decide)
    (by decide)
  have hlat := not_mem_of_isNumeral (isNumeral_of_mem_tableNumber h.2) (c := ',') (by decide)
    (by decide)
  simp [Zone.pointText, hlon, hlat]

/-! ### Rings -/

/-- The text is that of a polygon with a single ring, which has the positions as its points, in
this order. -/
def IsPolygonText (text : String) (ps : List Position) : Prop :=
  ∃ body, text.toList = "POLYGON((".toList ++ (body ++ "))".toList) ∧
    List.Forall₂ Position.IsSpelled (Text.pieces ',' body) ps

/-- **A text has the points of one ring at most.** -/
theorem IsPolygonText.eq {text : String} {ps qs : List Position} (hp : IsPolygonText text ps)
    (hq : IsPolygonText text qs) : ps = qs := by
  obtain ⟨a, hta, ha⟩ := hp
  obtain ⟨b, htb, hb⟩ := hq
  obtain rfl : a = b := List.append_cancel_right (List.append_cancel_left (hta.symm.trans htb))
  exact List.right_unique_forall₂' rightUnique_isSpelled ha hb

/-- **The well-known text of a ring has its points in order.** -/
theorem isPolygonText_wellKnownText {ps : List Position} (hne : ps ≠ [])
    (hps : ∀ p ∈ ps, p.IsFinite) {text : String} (h : (Zone.ring ps).wellKnownText? = some text) :
    IsPolygonText text ps := by
  obtain rfl := Option.some.inj h
  obtain ⟨p, ps, rfl⟩ := List.exists_cons_of_ne_nil hne
  rw [List.forall_mem_cons] at hps
  have hcomma : ∀ s ∈ (Zone.pointText p).toList :: ps.map fun q => (Zone.pointText q).toList,
      ',' ∉ s := by
    simpa using ⟨comma_not_mem_pointText hps.1, fun q hq => comma_not_mem_pointText (hps.2 q hq)⟩
  refine ⟨Text.joinWith [',', ' ']
    ((Zone.pointText p).toList :: ps.map fun q => (Zone.pointText q).toList), ?_, ?_⟩
  · simp [Text.joinStrings, Function.comp_def]
  · rw [Text.pieces_joinWith_cons (by decide) _ hcomma, List.map_map]
    refine .cons (Position.isSpelled_pointText hps.1 (b := []) (by simp)) ?_
    rw [List.forall₂_map_left_iff, List.forall₂_same]
    exact fun q hq =>
      Position.isSpelled_pointText (hps.2 q hq) (List.forall_mem_singleton.2 (by decide))

end Choropleth
