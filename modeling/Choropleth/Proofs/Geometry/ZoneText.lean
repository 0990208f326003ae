import Choropleth.Proofs.Number.ReadBack
import Choropleth.Proofs.Text.Cutting
import Choropleth.Request.Key

/-!
# Zones as texts

Keys hold a zone as a JSON text. A finite zone is given by its text.

* `Zone.IsFinite`: all numbers of a zone are finite;
* `zoneText_injective`: finite zones with one text are equal;
* `newline_not_mem_zoneText`: the text of a zone is a single line.
-/

namespace Choropleth

/-! ### Numbers -/

namespace Decimal

/-- The characters that written numbers are made of. -/
def IsNumeral (c : Char) : Prop := Number.isDigit c = true ∨ c ∈ ['.', 'e', '+', '-']

theorem isNumeral_of_mem_digitList {d : Decimal} {c : Char} (h : c ∈ d.digitList) : IsNumeral c :=
  .inl (isDigit_of_mem_digitList h)

theorem isNumeral_of_mem_plain {wholeEnd : List Char} (hend : ∀ c ∈ wholeEnd, IsNumeral c)
    {d : Decimal} {c : Char} (h : c ∈ d.plain wholeEnd) : IsNumeral c := by
  have hzeros (n : ℕ) : ∀ c ∈ List.replicate n '0', IsNumeral c := fun c hc =>
    .inl (isDigit_of_mem_zeros hc)
  rw [plain] at h
  split at h
  · rcases List.mem_append.1 h with h | h
    · exact (List.mem_append.1 h).elim isNumeral_of_mem_digitList (hzeros _ c)
    · exact hend c h
  · dsimp only at h
    split at h
    · rcases List.mem_append.1 h with h | h
      · exact isNumeral_of_mem_digitList (List.mem_of_mem_take h)
      · rcases List.mem_cons.1 h with rfl | h
        · exact .inr (by simp)
        · exact isNumeral_of_mem_digitList (List.mem_of_mem_drop h)
    · rcases List.mem_append.1 h with h | h
      · simp only [List.mem_cons] at h
        rcases h with rfl | rfl | h
        · exact .inl (by decide)
        · exact .inr (by simp)
        · exact hzeros _ c h
      · exact isNumeral_of_mem_digitList h

theorem isNumeral_of_mem_scientific {d : Decimal} {c : Char} (h : c ∈ d.scientific) :
    IsNumeral c := by
  rw [scientific] at h
  rcases List.mem_append.1 h with h | h
  · split at h
    · next b r s hd =>
      have hdigits : ∀ c ∈ b :: r :: s, IsNumeral c := fun c hc =>
        isNumeral_of_mem_digitList (hd ▸ hc)
      rcases List.mem_cons.1 h with rfl | h
      · exact hdigits _ List.mem_cons_self
      rcases List.mem_cons.1 h with rfl | h
      · exact .inr (by simp)
      · exact hdigits _ (List.mem_cons_of_mem _ h)
    · exact isNumeral_of_mem_digitList h
  rcases List.mem_cons.1 h with rfl | h
  · exact .inr (by simp)
  rcases List.mem_cons.1 h with rfl | h
  · refine .inr ?_
    split <;> simp
  · exact .inl (Number.isDigit_of_mem_toDigits h)

theorem isNumeral_of_mem_write {f : Notation} (hf : f.wholeEnd = "" ∨ f.wholeEnd = ".0")
    {d : Decimal} {c : Char} (h : c ∈ d.write f) : IsNumeral c := by
  have hend : ∀ c ∈ f.wholeEnd.toList, IsNumeral c := by
    rcases hf with h | h <;> rw [h] <;> simp [IsNumeral, Number.isDigit]
  rw [write] at h
  split at h
  · exact isNumeral_of_mem_plain hend h
  · exact isNumeral_of_mem_scientific h

end Decimal

theorem Notation.isNumeral_of_mem_write {f : Notation} (hf : f.wholeEnd = "" ∨ f.wholeEnd = ".0")
    {x : Float} (hn : x.isNaN = false ∧ x.isInf = false) {c : Char} (h : c ∈ (f.write x).toList) :
    Decimal.IsNumeral c := by
  rw [f.toList_write hn] at h
  split at h
  · rcases List.mem_cons.1 h with rfl | h
    · exact .inr (by simp)
    · exact Decimal.isNumeral_of_mem_write hf h
  · exact Decimal.isNumeral_of_mem_write hf h

/-- The number as JSON texts have it. -/
def jsonNumber (x : Float) : List Char := (jsonNotation.write x).toList

theorem jsonNumber_injective {x y : Float} (hx : x.isFinite = true) (hy : y.isFinite = true)
    (h : jsonNumber x = jsonNumber y) : x = y :=
  Notation.write_injective (.inr rfl) hx hy (String.toList_inj.1 h)

theorem isNumeral_or_letter_of_mem_jsonNumber {x : Float} {c : Char} (h : c ∈ jsonNumber x) :
    Decimal.IsNumeral c ∨ c ∈ "null".toList := by
  by_cases hn : x.isNaN = false ∧ x.isInf = false
  · exact .inl (jsonNotation.isNumeral_of_mem_write (.inr rfl) hn h)
  · refine .inr ?_
    rw [jsonNumber, Notation.write] at h
    split at h
    · exact h
    split at h
    · split at h <;> exact h
    · next hnan hinf => exact absurd ⟨by simpa using hnan, by simpa using hinf⟩ hn

theorem not_mem_jsonNumber {c : Char} (hd : Number.isDigit c = false)
    (hc : c ∉ ['.', 'e', '+', '-']) (hn : c ∉ "null".toList) (x : Float) : c ∉ jsonNumber x := by
  intro h
  rcases isNumeral_or_letter_of_mem_jsonNumber h with (h | h) | h
  · rw [hd] at h
    cases h
  · exact hc h
  · exact hn h

theorem comma_not_mem_jsonNumber (x : Float) : ',' ∉ jsonNumber x :=
  not_mem_jsonNumber (by decide) (by decide) (by decide) x

theorem brace_not_mem_jsonNumber (x : Float) : '\x7d' ∉ jsonNumber x :=
  not_mem_jsonNumber (by decide) (by decide) (by decide) x

theorem newline_not_mem_jsonNumber (x : Float) : '\n' ∉ jsonNumber x :=
  not_mem_jsonNumber (by decide) (by decide) (by decide) x

/-! ### Zones -/

/-- Both coordinates are finite. -/
def Position.IsFinite (p : Position) : Prop := p.lon.isFinite = true ∧ p.lat.isFinite = true

/-- All sides are finite. -/
def Box.IsFinite (b : Box) : Prop :=
  b.west.isFinite = true ∧ b.south.isFinite = true ∧ b.east.isFinite = true ∧
    b.north.isFinite = true

/-- All numbers of the zone are finite. -/
def Zone.IsFinite : Zone → Prop
  | .box b => b.IsFinite
  | .disc c m => c.IsFinite ∧ m.isFinite = true
  | .ring ps => ∀ p ∈ ps, p.IsFinite

open Json

theorem compactChars_position (p : Position) : p.toJson.compactChars =
    "\x7b\"lon\":".toList ++ (jsonNumber p.lon ++ ',' ::
      ("\"lat\":".toList ++ (jsonNumber p.lat ++ ['\x7d']))) := by
  simp [Position.toJson, compactChars, compactMembers, writeString, writeScalar, escapeChar,
    jsonNumber]

theorem compactChars_box (b : Box) : (Zone.box b).toJson.compactChars =
    "\x7b\"type\":\"boundingBox\",\"west\":".toList ++ (jsonNumber b.west ++ ',' ::
      ("\"south\":".toList ++ (jsonNumber b.south ++ ',' ::
        ("\"east\":".toList ++ (jsonNumber b.east ++ ',' ::
          ("\"north\":".toList ++ (jsonNumber b.north ++ ['\x7d']))))))) := by
  simp [Zone.toJson, Box.toMembers, compactChars, compactMembers, writeString, writeScalar,
    escapeChar, jsonNumber]

theorem compactChars_disc (c : Position) (m : Float) : (Zone.disc c m).toJson.compactChars =
    "\x7b\"type\":\"radius\",\"centre\":".toList ++ (c.toJson.compactChars ++
      (",\"metres\":".toList ++ (jsonNumber m ++ ['\x7d']))) := by
  simp [Zone.toJson, compactChars, compactMembers, writeString, writeScalar, escapeChar, jsonNumber]

theorem compactChars_ring (ps : List Position) : (Zone.ring ps).toJson.compactChars =
    "\x7b\"type\":\"polygon\",\"ring\":[".toList ++
      (compactItems (ps.map Position.toJson) ++ [']', '\x7d']) := by
  simp [Zone.toJson, compactChars, compactMembers, writeString, writeScalar, escapeChar]

/-- A position is found again at the front of a text. -/
theorem compactChars_position_append_inj {p q : Position} (hp : p.IsFinite) (hq : q.IsFinite)
    {s t : List Char} (h : p.toJson.compactChars ++ s = q.toJson.compactChars ++ t) :
    p = q ∧ s = t := by
  simp only [compactChars_position, List.append_assoc, List.cons_append, List.nil_append,
    List.append_cancel_left_eq] at h
  obtain ⟨hlon, h⟩ := Text.append_cons_inj (comma_not_mem_jsonNumber _)
    (comma_not_mem_jsonNumber _) h
  rw [List.append_cancel_left_eq] at h
  obtain ⟨hlat, hs⟩ := Text.append_cons_inj (brace_not_mem_jsonNumber _)
    (brace_not_mem_jsonNumber _) h
  have hlon := jsonNumber_injective hp.1 hq.1 hlon
  have hlat := jsonNumber_injective hp.2 hq.2 hlat
  cases p
  cases q
  exact ⟨by simp_all, hs⟩

/-- The points of a ring are found again in front of the bracket that closes it. -/
theorem compactItems_positions_inj {ps qs : List Position} (hp : ∀ p ∈ ps, p.IsFinite)
    (hq : ∀ q ∈ qs, q.IsFinite) {s t : List Char}
    (h : compactItems (ps.map Position.toJson) ++ ']' :: s =
      compactItems (qs.map Position.toJson) ++ ']' :: t) : ps = qs := by
  induction ps generalizing qs with
  | nil =>
    match qs with
    | [] => rfl
    | [q] => simp [compactItems, compactChars_position] at h
    | q :: r :: qs => simp [compactItems, compactChars_position] at h
  | cons p ps ih =>
    match ps, qs with
    | [], [] => simp [compactItems, compactChars_position] at h
    | _ :: _, [] => simp [compactItems, compactChars_position] at h
    | [], [q] =>
      simp only [List.map_cons, List.map_nil, compactItems] at h
      obtain ⟨rfl, -⟩ := compactChars_position_append_inj (hp p List.mem_cons_self)
        (hq q List.mem_cons_self) h
      rfl
    | [], q :: r :: qs =>
      simp only [List.map_cons, List.map_nil, compactItems, List.append_assoc] at h
      obtain ⟨-, h⟩ := compactChars_position_append_inj (hp p List.mem_cons_self)
        (hq q List.mem_cons_self) h
      simp at h
    | o :: ps, [q] =>
      simp only [List.map_cons, List.map_nil, compactItems, List.append_assoc] at h
      obtain ⟨-, h⟩ := compactChars_position_append_inj (hp p List.mem_cons_self)
        (hq q List.mem_cons_self) h
      simp at h
    | o :: ps, q :: r :: qs =>
      rw [List.map_cons, List.map_cons, List.map_cons, List.map_cons, compactItems, compactItems,
        List.append_assoc, List.append_assoc] at h
      obtain ⟨rfl, hr⟩ := compactChars_position_append_inj (hp p List.mem_cons_self)
        (hq q List.mem_cons_self) h
      rw [ih (fun x hx => hp x (List.mem_cons_of_mem _ hx))
        (fun x hx => hq x (List.mem_cons_of_mem _ hx)) (List.cons.inj hr).2]

/-- The kind of a zone is the first thing in its text that differs from the texts of other kinds. -/
theorem kind_eq_of_compactChars {z w : Zone}
    (h : z.toJson.compactChars = w.toJson.compactChars) : z.ctorIdx = w.ctorIdx := by
  cases z <;> cases w <;> first
    | rfl
    | simp [compactChars_box, compactChars_disc, compactChars_ring] at h

theorem compactChars_zone_injective {z w : Zone} (hz : z.IsFinite) (hw : w.IsFinite)
    (h : z.toJson.compactChars = w.toJson.compactChars) : z = w := by
  have hk := kind_eq_of_compactChars h
  cases z with
  | box a =>
    cases w with
    | box b =>
      simp only [compactChars_box, List.append_cancel_left_eq] at h
      obtain ⟨hwest, h⟩ := Text.append_cons_inj (comma_not_mem_jsonNumber _)
        (comma_not_mem_jsonNumber _) h
      obtain ⟨hsouth, h⟩ := Text.append_cons_inj (comma_not_mem_jsonNumber _)
        (comma_not_mem_jsonNumber _) (List.append_cancel_left h)
      obtain ⟨heast, h⟩ := Text.append_cons_inj (comma_not_mem_jsonNumber _)
        (comma_not_mem_jsonNumber _) (List.append_cancel_left h)
      have hnorth := List.append_cancel_right (List.append_cancel_left h)
      have hwest := jsonNumber_injective hz.1 hw.1 hwest
      have hsouth := jsonNumber_injective hz.2.1 hw.2.1 hsouth
      have heast := jsonNumber_injective hz.2.2.1 hw.2.2.1 heast
      have hnorth := jsonNumber_injective hz.2.2.2 hw.2.2.2 hnorth
      cases a
      cases b
      simp_all
    | disc c m => cases hk
    | ring ps => cases hk
  | disc c m =>
    cases w with
    | box b => cases hk
    | disc c' m' =>
      simp only [compactChars_disc, List.append_cancel_left_eq] at h
      obtain ⟨rfl, hr⟩ := compactChars_position_append_inj hz.1 hw.1 h
      have hm := List.append_cancel_right (List.append_cancel_left hr)
      rw [jsonNumber_injective hz.2 hw.2 hm]
    | ring ps => cases hk
  | ring ps =>
    cases w with
    | box b => cases hk
    | disc c m => cases hk
    | ring qs =>
      simp only [compactChars_ring, List.append_cancel_left_eq] at h
      rw [compactItems_positions_inj hz hw h]

/-- **Finite zones with one text are equal.** -/
theorem zoneText_injective {z w : Option Zone} (hz : ∀ x ∈ z, x.IsFinite) (hw : ∀ x ∈ w, x.IsFinite)
    (h : zoneText z = zoneText w) : z = w := by
  have hne (z : Zone) : z.toJson.compactChars ≠ [] := by
    cases z <;> simp [compactChars_box, compactChars_disc, compactChars_ring]
  cases z with
  | none =>
    cases w with
    | none => rfl
    | some w => exact absurd (String.toList_inj.2 h.symm) (by simpa [zoneText, compact] using hne w)
  | some z =>
    cases w with
    | none => exact absurd (String.toList_inj.2 h) (by simpa [zoneText, compact] using hne z)
    | some w =>
      have h := String.toList_inj.2 h
      rw [zoneText, zoneText, compact, compact, String.toList_ofList, String.toList_ofList] at h
      rw [compactChars_zone_injective (hz z rfl) (hw w rfl) h]

/-- The text of a zone is a single line. -/
theorem newline_not_mem_zoneText (z : Option Zone) : '\n' ∉ (zoneText z).toList := by
  have hposition (p : Position) : '\n' ∉ p.toJson.compactChars := by
    simp [compactChars_position, newline_not_mem_jsonNumber]
  have hitems (ps : List Position) : '\n' ∉ compactItems (ps.map Position.toJson) := by
    induction ps with
    | nil => simp [compactItems]
    | cons p ps ih =>
      cases ps with
      | nil => exact hposition p
      | cons q ps => simpa [compactItems, hposition] using ih
  cases z with
  | none => simp [zoneText]
  | some z =>
    rw [zoneText, compact, String.toList_ofList]
    cases z with
    | box b => simp [compactChars_box, newline_not_mem_jsonNumber]
    | disc c m => simp [compactChars_disc, newline_not_mem_jsonNumber, hposition]
    | ring ps => simp [compactChars_ring, hitems]

end Choropleth
