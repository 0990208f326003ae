import Choropleth.Proofs.Selection.Parsing
import Choropleth.Request.Key

/-!
# Ranges as texts

Keys hold a range as the text `first...last`. A text may be that of several ranges, since a dot that
is next to the mark may belong to either code.

* `CodeRange.text`: the text of a range;
* `CodeRange.LooseDot`: a dot next to the mark may go to the other side of it;
* `eq_of_text_eq`: a range without a loose dot is given by its text;
* `exists_other_of_looseDot`: a range with a loose dot is not;
* `Selection.sameAs_of_texts`, `Selection.exists_other_of_looseDot`: the same for selections.
-/

namespace Choropleth

/-- A code with a dot behind it is a code if more dots would do no harm either. -/
theorem IsCode.append_dot {f m : List Char} (h : IsCode f) (hm : IsCode (f ++ '.' :: m)) :
    IsCode (f ++ ['.']) := by
  refine hm.of_infix (List.IsPrefix.isInfix ⟨m, by simp⟩) (by simp) ?_
  refine Text.isTrimmed_append h.ne_nil (by simp) h.isTrimmed.1 ?_
  rintro _ ⟨⟩
  rfl

/-- What a code ends in is a code if it begins with a dot. -/
theorem IsCode.cons_dot {l m : List Char} (hl : IsCode (m ++ '.' :: l)) : IsCode ('.' :: l) := by
  refine hl.of_infix (List.suffix_append m ('.' :: l)).isInfix (by simp) ⟨?_, ?_⟩
  · rintro _ ⟨⟩
    decide
  have := hl.isTrimmed.2
  rwa [List.getLast?_append_of_ne_nil m (by simp)] at this

namespace CodeRange

/-- The text of a range. -/
def text (r : CodeRange) : String := r.first ++ "..." ++ r.last

/-- A dot next to the mark may go to the other side of it, so that the codes around the mark are
other codes. -/
def LooseDot (r : CodeRange) : Prop :=
  (∃ f, r.first.toList = f ++ ['.'] ∧ IsCode f ∧ IsCode ('.' :: r.last.toList)) ∨
    ∃ l, r.last.toList = '.' :: l ∧ IsCode l ∧ IsCode (r.first.toList ++ ['.'])

theorem toList_text (r : CodeRange) :
    r.text.toList = r.first.toList ++ ('.' :: '.' :: '.' :: r.last.toList) := by
  simp [text]

/-- If the mark of another range with the same text stands further to the right, the dot behind the
mark is loose. -/
theorem looseDot_of_later {r q : CodeRange} (hr : r.WellFormed) (hq : q.WellFormed) {m : List Char}
    (hm : m ≠ []) (hfirst : q.first.toList = r.first.toList ++ m)
    (hlast : '.' :: '.' :: '.' :: r.last.toList = m ++ '.' :: '.' :: '.' :: q.last.toList) :
    r.LooseDot := by
  refine .inr ?_
  match m with
  | [] => exact absurd rfl hm
  | [a] =>
    obtain ⟨rfl, hl⟩ : '.' = a ∧ r.last.toList = '.' :: q.last.toList := by simpa using hlast
    exact ⟨q.last.toList, hl, hq.last, hfirst ▸ hq.first⟩
  | [a, b] =>
    obtain ⟨rfl, rfl, hl⟩ : '.' = a ∧ '.' = b ∧ r.last.toList = '.' :: '.' :: q.last.toList := by
      simpa using hlast
    refine ⟨'.' :: q.last.toList, hl, ?_, hr.first.append_dot (m := ['.']) (hfirst ▸ hq.first)⟩
    exact IsCode.cons_dot (m := ['.']) (by simpa [hl] using hr.last)
  | a :: b :: c :: m =>
    -- the mark of `q` would stand inside the last code of `r`
    obtain ⟨-, -, -, hl⟩ : '.' = a ∧ '.' = b ∧ '.' = c ∧
        r.last.toList = m ++ '.' :: '.' :: '.' :: q.last.toList := by simpa using hlast
    refine absurd ?_ hr.last.not_hasEllipsis
    exact ⟨m, q.last.toList, by rw [hl, List.append_assoc]; rfl⟩

/-- If the mark of another range with the same text stands further to the left, the dot in front of
the mark is loose. -/
theorem looseDot_of_earlier {r q : CodeRange} (hr : r.WellFormed) (hq : q.WellFormed)
    {m : List Char} (hm : m ≠ []) (hfirst : r.first.toList = q.first.toList ++ m)
    (hlast : '.' :: '.' :: '.' :: q.last.toList = m ++ '.' :: '.' :: '.' :: r.last.toList) :
    r.LooseDot := by
  refine .inl ?_
  match m with
  | [] => exact absurd rfl hm
  | [a] =>
    obtain ⟨rfl, hl⟩ : '.' = a ∧ q.last.toList = '.' :: r.last.toList := by simpa using hlast
    exact ⟨q.first.toList, hfirst, hq.first, hl ▸ hq.last⟩
  | [a, b] =>
    obtain ⟨rfl, rfl, hl⟩ : '.' = a ∧ '.' = b ∧ q.last.toList = '.' :: '.' :: r.last.toList := by
      simpa using hlast
    refine ⟨q.first.toList ++ ['.'], by simpa using hfirst, ?_, ?_⟩
    · exact hq.first.append_dot (m := ['.']) (hfirst ▸ hr.first)
    · exact IsCode.cons_dot (m := ['.']) (by simpa [hl] using hq.last)
  | a :: b :: c :: m =>
    obtain ⟨-, -, -, hl⟩ : '.' = a ∧ '.' = b ∧ '.' = c ∧
        q.last.toList = m ++ '.' :: '.' :: '.' :: r.last.toList := by simpa using hlast
    refine absurd ?_ hq.last.not_hasEllipsis
    exact ⟨m, r.last.toList, by rw [hl, List.append_assoc]; rfl⟩

/-- **A range without a loose dot is given by its text.** -/
theorem eq_of_text_eq {r q : CodeRange} (hr : r.WellFormed) (hq : q.WellFormed)
    (hd : ¬r.LooseDot) (h : r.text = q.text) : r = q := by
  have hl := String.toList_inj.2 h
  rw [toList_text, toList_text] at hl
  have hfirst : r.first.toList = q.first.toList := by
    rcases List.append_eq_append_iff.1 hl with ⟨m, hfirst, hlast⟩ | ⟨m, hfirst, hlast⟩
    · by_contra hne
      have hm : m ≠ [] := fun hm => hne (by rw [hfirst, hm, List.append_nil])
      exact hd (looseDot_of_later hr hq hm hfirst hlast)
    · by_contra hne
      have hm : m ≠ [] := fun hm => hne (by rw [hfirst, hm, List.append_nil])
      exact hd (looseDot_of_earlier hr hq hm hfirst hlast)
  have hlast : r.last.toList = q.last.toList := by simpa [hfirst] using hl
  exact congrArg₂ CodeRange.mk (String.toList_inj.1 hfirst) (String.toList_inj.1 hlast)

/-- **A range with a loose dot is not given by its text.** -/
theorem exists_other_of_looseDot {r : CodeRange} (hd : r.LooseDot) :
    ∃ q : CodeRange, q.WellFormed ∧ q ≠ r ∧ q.text = r.text := by
  rcases hd with ⟨f, hf, hfirst, hlast⟩ | ⟨l, hl, hlast, hfirst⟩
  · refine ⟨⟨String.ofList f, String.ofList ('.' :: r.last.toList)⟩, ⟨?_, ?_⟩, ?_, ?_⟩
    · rwa [String.toList_ofList]
    · rwa [String.toList_ofList]
    · intro hr
      have hf' := congrArg (fun q : CodeRange => q.first.toList.length) hr
      simp [hf] at hf'
    · rw [← String.toList_inj, toList_text, toList_text, hf]
      simp
  · refine ⟨⟨String.ofList (r.first.toList ++ ['.']), String.ofList l⟩, ⟨?_, ?_⟩, ?_, ?_⟩
    · rwa [String.toList_ofList]
    · rwa [String.toList_ofList]
    · intro hr
      have hl' := congrArg (fun q : CodeRange => q.last.toList.length) hr
      simp [hl] at hl'
    · rw [← String.toList_inj, toList_text, toList_text, hl]
      simp

end CodeRange

/-! ### Selections as texts -/

namespace Selection

/-- Two selections have the same codes and the same ranges, in whatever order and however often. -/
def SameAs (s t : Selection) : Prop :=
  (∀ c, c ∈ s.codes ↔ c ∈ t.codes) ∧ ∀ r, r ∈ s.ranges ↔ r ∈ t.ranges

theorem mem_texts {s : Selection} {x : String} :
    x ∈ s.texts ↔ x ∈ s.codes ∨ ∃ r ∈ s.ranges, r.text = x := by
  simp [texts, CodeRange.text]

theorem texts_congr {s t : Selection} (h : s.SameAs t) (x : String) :
    x ∈ s.texts ↔ x ∈ t.texts := by
  simp only [mem_texts, h.1, h.2]

/-- Texts of codes and ranges can be told apart by commas. -/
theorem ne_empty_of_mem_texts {s : Selection} (h : s.WellFormed) :
    ∀ x ∈ s.texts, x ≠ "" ∧ ',' ∉ x.toList := by
  intro x hx
  rcases mem_texts.1 hx with hc | ⟨r, hr, rfl⟩
  · have hw := h.codes x hc
    exact ⟨by simpa using hw.ne_nil, hw.comma_not_mem⟩
  · have hw := h.ranges r hr
    have ht := r.toList_text
    refine ⟨fun he => ?_, ?_⟩
    · simp [he] at ht
    · simp [ht, hw.first.comma_not_mem, hw.last.comma_not_mem]

/-- The text of a range is not that of a code. -/
theorem text_ne_code {r : CodeRange} {c : String} (hc : IsCode c.toList) : r.text ≠ c := by
  rintro rfl
  refine hc.not_hasEllipsis ?_
  rw [r.toList_text]
  exact ⟨r.first.toList, r.last.toList, by simp⟩

/-- Selections with the same texts are the same if no dot of one of them is loose. -/
theorem sameAs_of_texts {s t : Selection} (hs : s.WellFormed) (ht : t.WellFormed)
    (hd : ∀ r ∈ s.ranges, ¬r.LooseDot) (h : ∀ x, x ∈ s.texts ↔ x ∈ t.texts) : s.SameAs t := by
  have hcodes {s t : Selection} (hs : s.WellFormed) (h : ∀ x ∈ s.texts, x ∈ t.texts) :
      ∀ c ∈ s.codes, c ∈ t.codes := by
    intro c hc
    rcases mem_texts.1 (h c (mem_texts.2 (.inl hc))) with hc' | ⟨r, -, hr⟩
    · exact hc'
    · exact absurd hr (text_ne_code (hs.codes c hc))
  have hranges {s t : Selection} (ht : t.WellFormed) (h : ∀ x ∈ s.texts, x ∈ t.texts) :
      ∀ r ∈ s.ranges, ∃ q ∈ t.ranges, q.text = r.text := by
    intro r hr
    rcases mem_texts.1 (h r.text (mem_texts.2 (.inr ⟨r, hr, rfl⟩))) with hc | hq
    · exact absurd rfl (text_ne_code (ht.codes _ hc))
    · exact hq
  refine ⟨fun c => ⟨hcodes hs (fun x => (h x).1) c, hcodes ht (fun x => (h x).2) c⟩, fun r => ?_⟩
  constructor
  · intro hr
    obtain ⟨q, hq, htext⟩ := hranges ht (fun x => (h x).1) r hr
    rwa [CodeRange.eq_of_text_eq (hs.ranges r hr) (ht.ranges q hq) (hd r hr) htext.symm]
  · intro hr
    obtain ⟨q, hq, htext⟩ := hranges hs (fun x => (h x).2) r hr
    rwa [← CodeRange.eq_of_text_eq (hs.ranges q hq) (ht.ranges r hr) (hd q hq) htext]

/-- A selection with a loose dot is not given by its texts. -/
theorem exists_other_of_looseDot {s : Selection} (hs : s.WellFormed) {r : CodeRange}
    (hr : r ∈ s.ranges) (hd : r.LooseDot) :
    ∃ t : Selection, t.WellFormed ∧ t.texts = s.texts ∧ t.isEmpty = s.isEmpty ∧ ¬s.SameAs t := by
  obtain ⟨q, hq, hne, htext⟩ := CodeRange.exists_other_of_looseDot hd
  -- wherever the range stands, the other range with its text takes its place
  let other (p : CodeRange) : CodeRange := if p = r then q else p
  have hother (p : CodeRange) : (other p).text = p.text ∧ other p ≠ r := by
    by_cases hp : p = r
    · simp [other, hp, htext, hne]
    · simp [other, hp]
  refine ⟨⟨s.codes, s.ranges.map other⟩, ⟨hs.codes, fun o ho => ?_⟩, ?_, ?_, fun hsame => ?_⟩
  · obtain ⟨p, hp, rfl⟩ := List.mem_map.1 ho
    by_cases h : p = r
    · simpa [other, h] using hq
    · simpa [other, h] using hs.ranges p hp
  · rw [texts, texts, List.map_map]
    congr 1
    exact List.map_congr_left fun p _ => (hother p).1
  · simp [isEmpty]
  · obtain ⟨p, -, hp⟩ := List.mem_map.1 ((hsame.2 r).1 hr)
    exact (hother p).2 hp

end Selection
end Choropleth
