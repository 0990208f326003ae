import Mathlib.Data.List.Basic
import Mathlib.Data.List.Infix
import Mathlib.Data.List.TakeWhile
import Choropleth.Text.Blank
import Choropleth.Text.Split

/-!
# Where texts can be cut

A text that was joined from parts can be cut back into them as far as the parts do not hold what
was put between them.

* `append_cons_inj`, `append_cons_inj_of_count`: a text is cut at a separator in one way only if the
  separators in front of it are known;
* `pieces_append_sep`, `exists_pieces_append`, `exists_pieces_of_append`: the pieces of a text with
  more behind it or in front of it;
* `pieces_joinWith`, `joinWith_injective`: joining with a separator that the parts do not hold;
* `HasEllipsis`: a text with the mark `...` in it;
* `FirstMark`: where the first mark of a text stands;
* `ellipsisPieces_of_not`, `FirstMark.ellipsisPieces_eq`: where texts are cut at marks;
* `isTrimmed_trim`, `trim_eq_self`: trimmed texts are those that trimming leaves as they are;
* `exists_blanks_around`: trimming removes nothing but blanks.
-/

namespace Choropleth
namespace Text

/-! ### Single separators -/

/-- A text is cut at a separator in one way only, once it is known how many separators stand in
front of the cut. -/
theorem append_cons_inj_of_count {c : Char} {u v s t : List Char} (hc : u.count c = v.count c)
    (h : u ++ c :: s = v ++ c :: t) : u = v ∧ s = t := by
  induction u generalizing v with
  | nil =>
    cases v with
    | nil => exact ⟨rfl, by simpa using h⟩
    | cons d v =>
      -- the first character of `v` is the separator, so that `v` would hold one
      obtain ⟨rfl, -⟩ : c = d ∧ s = v ++ c :: t := by simpa using h
      simp at hc
  | cons d u ih =>
    cases v with
    | nil =>
      obtain ⟨rfl, -⟩ : d = c ∧ u ++ c :: s = t := by simpa using h
      simp at hc
    | cons e v =>
      obtain ⟨rfl, ht⟩ : d = e ∧ u ++ c :: s = v ++ c :: t := by simpa using h
      have hc : u.count c = v.count c := by
        simp only [List.count_cons] at hc
        omega
      obtain ⟨rfl, hs⟩ := ih hc ht
      exact ⟨rfl, hs⟩

/-- A text is cut at its first separator in one way only. -/
theorem append_cons_inj {c : Char} {u v s t : List Char} (hu : c ∉ u) (hv : c ∉ v)
    (h : u ++ c :: s = v ++ c :: t) : u = v ∧ s = t :=
  append_cons_inj_of_count (by rw [List.count_eq_zero_of_not_mem hu,
    List.count_eq_zero_of_not_mem hv]) h

theorem pieces_of_not_mem {sep : Char} {p : List Char} (hp : sep ∉ p) : pieces sep p = [p] := by
  induction p with
  | nil => rfl
  | cons c p ih =>
    rw [List.mem_cons, not_or] at hp
    rw [pieces, if_neg (Ne.symm hp.1), ih hp.2, consFirst]

/-- A text of one piece is that piece. -/
theorem pieces_of_length_eq_one (sep : Char) {s : List Char} (h : (pieces sep s).length = 1) :
    sep ∉ s ∧ pieces sep s = [s] := by
  obtain ⟨p, hp⟩ := List.length_eq_one_iff.1 h
  have hs := joinWith_pieces sep s
  rw [hp, joinWith] at hs
  subst hs
  exact ⟨not_mem_of_mem_pieces (hp ▸ List.mem_singleton_self p), hp⟩

theorem pieces_append_sep (sep : Char) (a b : List Char) :
    pieces sep (a ++ sep :: b) = pieces sep a ++ pieces sep b := by
  induction a with
  | nil => simp [pieces]
  | cons c a ih =>
    obtain ⟨p, ps, hp⟩ := List.exists_cons_of_ne_nil (pieces_ne_nil sep a)
    by_cases hc : c = sep
    · simp [pieces, hc, ih]
    · simp [pieces, hc, ih, hp, consFirst]

theorem pieces_append_cons {sep : Char} {p : List Char} (hp : sep ∉ p) (s : List Char) :
    pieces sep (p ++ sep :: s) = p :: pieces sep s := by
  rw [pieces_append_sep, pieces_of_not_mem hp, List.singleton_append]

/-- More without a separator belongs to the last piece. -/
theorem exists_pieces_append {sep : Char} (s : List Char) {e : List Char} (he : sep ∉ e) :
    ∃ front last, pieces sep s = front ++ [last] ∧ pieces sep (s ++ e) = front ++ [last ++ e] := by
  induction s with
  | nil => exact ⟨[], [], rfl, pieces_of_not_mem he⟩
  | cons c s ih =>
    obtain ⟨front, last, hs, hse⟩ := ih
    by_cases hc : c = sep
    · exact ⟨[] :: front, last, by simp [pieces, hc, hs], by simp [pieces, hc, hse]⟩
    · cases front with
      | nil =>
        exact ⟨[], c :: last, by simp [pieces, hc, hs, consFirst],
          by simp [pieces, hc, hse, consFirst]⟩
      | cons p front =>
        exact ⟨(c :: p) :: front, last, by simp [pieces, hc, hs, consFirst],
          by simp [pieces, hc, hse, consFirst]⟩

/-- More in front without a separator belongs to the first piece. -/
theorem exists_pieces_of_append {sep : Char} {b : List Char} (hb : sep ∉ b) (s : List Char) :
    ∃ first rest, pieces sep s = first :: rest ∧ pieces sep (b ++ s) = (b ++ first) :: rest := by
  induction b with
  | nil =>
    obtain ⟨first, rest, hs⟩ := List.exists_cons_of_ne_nil (pieces_ne_nil sep s)
    exact ⟨first, rest, hs, hs⟩
  | cons c b ih =>
    rw [List.mem_cons, not_or] at hb
    obtain ⟨first, rest, hs, hbs⟩ := ih hb.2
    refine ⟨first, rest, hs, ?_⟩
    rw [List.cons_append, pieces, if_neg (Ne.symm hb.1), hbs]
    rfl

theorem mem_of_mem_pieces {sep c : Char} {s p : List Char} (hp : p ∈ pieces sep s) (hc : c ∈ p) :
    c ∈ s := by
  induction s generalizing p with
  | nil => simp_all [pieces]
  | cons d s ih =>
    obtain ⟨q, qs, hq⟩ := List.exists_cons_of_ne_nil (pieces_ne_nil sep s)
    rw [pieces] at hp
    split at hp
    · rcases List.mem_cons.1 hp with rfl | hp
      · simp at hc
      · exact List.mem_cons_of_mem _ (ih hp hc)
    · rw [hq, consFirst] at hp
      rcases List.mem_cons.1 hp with rfl | hp
      · rcases List.mem_cons.1 hc with rfl | hc
        · exact List.mem_cons_self
        · exact List.mem_cons_of_mem _ (ih (hq ▸ List.mem_cons_self) hc)
      · exact List.mem_cons_of_mem _ (ih (hq ▸ List.mem_cons_of_mem _ hp) hc)

/-- Cutting undoes joining, if no part holds the separator. What follows every separator is found
in front of the parts after the first. -/
theorem pieces_joinWith_cons {sep : Char} {b : List Char} (hb : sep ∉ b) (p : List Char)
    {ps : List (List Char)} (h : ∀ q ∈ p :: ps, sep ∉ q) :
    pieces sep (joinWith (sep :: b) (p :: ps)) = p :: ps.map (b ++ ·) := by
  induction ps generalizing p with
  | nil => exact pieces_of_not_mem (h p List.mem_cons_self)
  | cons q ps ih =>
    have hp := h p List.mem_cons_self
    have hq := ih q fun r hr => h r (List.mem_cons_of_mem p hr)
    obtain ⟨first, rest, hs, hbs⟩ := exists_pieces_of_append hb (joinWith (sep :: b) (q :: ps))
    obtain ⟨rfl, rfl⟩ := List.cons.inj (hs.symm.trans hq)
    rw [joinWith, List.append_assoc, List.cons_append, pieces_append_cons hp, hbs, List.map_cons]

/-- Cutting undoes joining, if there are parts at all and none holds the separator. -/
theorem pieces_joinWith {sep : Char} {ps : List (List Char)} (hne : ps ≠ [])
    (h : ∀ p ∈ ps, sep ∉ p) : pieces sep (joinWith [sep] ps) = ps := by
  obtain ⟨p, ps, rfl⟩ := List.exists_cons_of_ne_nil hne
  simpa using pieces_joinWith_cons List.not_mem_nil p h

/-- Parts that are not empty and do not hold the separator are found again in what they are joined
to. -/
theorem joinWith_injective {sep : Char} {ps qs : List (List Char)}
    (hp : ∀ p ∈ ps, p ≠ [] ∧ sep ∉ p) (hq : ∀ q ∈ qs, q ≠ [] ∧ sep ∉ q)
    (h : joinWith [sep] ps = joinWith [sep] qs) : ps = qs := by
  have key (ps : List (List Char)) (hp : ∀ p ∈ ps, p ≠ [] ∧ sep ∉ p) :
      (pieces sep (joinWith [sep] ps)).filter (fun p => p ≠ []) = ps := by
    cases ps with
    | nil => rfl
    | cons p ps =>
      rw [pieces_joinWith (List.cons_ne_nil p ps) fun q hq => (hp q hq).2, List.filter_eq_self]
      intro q hq
      simpa using (hp q hq).1
  rw [← key ps hp, h, key qs hq]

theorem mem_joinWith {sep : List Char} {ps : List (List Char)} {c : Char}
    (h : c ∈ joinWith sep ps) : c ∈ sep ∨ ∃ p ∈ ps, c ∈ p := by
  induction ps using joinWith.induct with
  | case1 => cases h
  | case2 p => exact .inr ⟨p, by simp, h⟩
  | case3 p q ps ih =>
    rcases List.mem_append.1 h with h | h
    · rcases List.mem_append.1 h with h | h
      · exact .inr ⟨p, by simp, h⟩
      · exact .inl h
    · rcases ih h with h | ⟨r, hr, h⟩
      · exact .inl h
      · exact .inr ⟨r, List.mem_cons_of_mem p hr, h⟩

/-! ### Marks of ranges -/

/-- The text has the mark `...` in it. -/
def HasEllipsis (s : List Char) : Prop := ['.', '.', '.'] <:+: s

instance (s : List Char) : Decidable (HasEllipsis s) :=
  inferInstanceAs (Decidable (['.', '.', '.'] <:+: s))

theorem HasEllipsis.mono {s t : List Char} (h : HasEllipsis s) (hst : s <:+: t) : HasEllipsis t :=
  List.IsInfix.trans h hst

theorem not_hasEllipsis_nil : ¬HasEllipsis [] := by simp [HasEllipsis]

/-- A text is cut after its first character unless a mark begins there. -/
theorem ellipsisPieces_cons {c : Char} {s : List Char} (h : ¬['.', '.', '.'] <+: c :: s) :
    ellipsisPieces (c :: s) = consFirst c (ellipsisPieces s) := by
  refine ellipsisPieces.eq_2 c s fun r hc hr => h ?_
  subst hc hr
  exact ⟨r, rfl⟩

theorem ellipsisPieces_ne_nil (s : List Char) : ellipsisPieces s ≠ [] := by
  induction s using ellipsisPieces.induct with
  | case1 r ih => simp [ellipsisPieces]
  | case2 c r hr ih =>
    rw [ellipsisPieces.eq_2 c r hr]
    cases ellipsisPieces r <;> simp [consFirst]
  | case3 => simp [ellipsisPieces]

/-- A text without a mark is its only piece. -/
theorem ellipsisPieces_of_not {s : List Char} (h : ¬HasEllipsis s) : ellipsisPieces s = [s] := by
  induction s with
  | nil => rfl
  | cons c s ih =>
    have hc : ¬['.', '.', '.'] <+: c :: s := fun hp => h hp.isInfix
    rw [ellipsisPieces_cons hc, ih fun hs => h (hs.mono (List.infix_cons List.infix_rfl)),
      consFirst]

/-- The first mark of the text stands between `before` and `after`: no mark begins in `before`. -/
def FirstMark (t before after : List Char) : Prop :=
  t = before ++ '.' :: '.' :: '.' :: after ∧ ¬HasEllipsis (before ++ ['.', '.'])

theorem FirstMark.hasEllipsis {t u v : List Char} (h : FirstMark t u v) : HasEllipsis t :=
  ⟨u, v, by rw [h.1, List.append_assoc]; rfl⟩

/-- A text with a mark has a first one. -/
theorem exists_firstMark {t : List Char} (h : HasEllipsis t) : ∃ u v, FirstMark t u v := by
  induction t with
  | nil => exact absurd h not_hasEllipsis_nil
  | cons c t ih =>
    by_cases hp : ['.', '.', '.'] <+: c :: t
    · obtain ⟨v, hv⟩ := hp
      exact ⟨[], v, hv.symm, by decide⟩
    · obtain ⟨u, v, rfl, hu⟩ := ih ((List.infix_cons_iff.1 h).resolve_left hp)
      refine ⟨c :: u, v, rfl, fun hm => ?_⟩
      -- a mark that begins at `c` would be one at the front of the text
      rcases List.infix_cons_iff.1 hm with hm | hm
      · exact hp (hm.trans ⟨'.' :: v, by simp⟩)
      · exact hu hm

/-- A text is cut at its first mark. -/
theorem FirstMark.ellipsisPieces_eq {t u v : List Char} (h : FirstMark t u v) :
    ellipsisPieces t = u :: ellipsisPieces v := by
  obtain ⟨rfl, h⟩ := h
  induction u with
  | nil => rfl
  | cons c u ih =>
    have hc : ¬['.', '.', '.'] <+: c :: (u ++ '.' :: '.' :: '.' :: v) := by
      intro hp
      have hfront : c :: (u ++ ['.', '.']) <+: c :: (u ++ '.' :: '.' :: '.' :: v) :=
        ⟨'.' :: v, by simp⟩
      exact h (List.prefix_of_prefix_length_le hp hfront (by simp)).isInfix
    have hu := ih fun hm => h (hm.mono (List.infix_cons List.infix_rfl))
    rw [List.cons_append, ellipsisPieces_cons hc, hu, consFirst]

/-- Two dots behind a text make no mark unless it ends in a dot. -/
theorem not_hasEllipsis_append_dots {u : List Char} (h : ¬HasEllipsis u)
    (hl : u.getLast? ≠ some '.') : ¬HasEllipsis (u ++ ['.', '.']) := by
  intro he
  have hr := List.reverse_infix.2 he
  have hdot {s : List Char} (hs : s ++ ['.'] <+: u.reverse) (hs' : s = [] ∨ s = ['.']) :
      False := by
    obtain ⟨w, hw⟩ := hs
    refine hl ?_
    rw [← List.head?_reverse, ← hw]
    rcases hs' with rfl | rfl <;> rfl
  rw [List.reverse_append] at hr
  rcases List.infix_cons_iff.1 hr with hp | hi
  · exact hdot (s := []) (by simpa [List.cons_prefix_cons] using hp) (.inl rfl)
  rcases List.infix_cons_iff.1 hi with hp | hi
  · exact hdot (s := ['.']) (by simpa [List.cons_prefix_cons] using hp) (.inr rfl)
  · exact h (List.reverse_infix.1 hi)

theorem not_hasEllipsis_cons_blank {s : List Char} (h : ¬HasEllipsis s) :
    ¬HasEllipsis (' ' :: s) := by
  intro he
  rcases List.infix_cons_iff.1 he with hp | hi
  · simp [List.cons_prefix_cons] at hp
  · exact h hi

theorem not_hasEllipsis_append_blank {s : List Char} (h : ¬HasEllipsis s) :
    ¬HasEllipsis (s ++ [' ']) := by
  intro he
  have hr := List.reverse_infix.2 he
  rw [List.reverse_append] at hr
  rcases List.infix_cons_iff.1 hr with hp | hi
  · simp [List.cons_prefix_cons] at hp
  · exact h (List.reverse_infix.1 hi)

/-! ### Trimming -/

theorem trimStart_suffix_self (s : List Char) : trimStart s <:+ s := List.dropWhile_suffix _

theorem trimEnd_prefix_self (s : List Char) : trimEnd s <+: s := by
  obtain ⟨t, ht⟩ := List.dropWhile_suffix isBlank (l := s.reverse)
  exact ⟨t.reverse, by rw [trimEnd, ← List.reverse_append, ht, List.reverse_reverse]⟩

theorem trim_infix_self (s : List Char) : trim s <:+: s :=
  (trimEnd_prefix_self _).isInfix.trans (trimStart_suffix_self s).isInfix

theorem mem_of_mem_trim {c : Char} {s : List Char} (h : c ∈ trim s) : c ∈ s :=
  (trim_infix_self s).subset h

theorem trimStart_eq_self {s : List Char} (h : ∀ c ∈ s.head?, isBlank c = false) :
    trimStart s = s := by
  cases s with
  | nil => rfl
  | cons c s => rw [trimStart, List.dropWhile_cons_of_neg (by simpa using h c rfl)]

theorem trimEnd_eq_self {s : List Char} (h : ∀ c ∈ s.getLast?, isBlank c = false) :
    trimEnd s = s := by
  have hr : trimStart s.reverse = s.reverse := trimStart_eq_self (by simpa using h)
  rw [trimEnd, ← trimStart, hr, List.reverse_reverse]

/-- Trimming changes nothing about a trimmed text. -/
theorem trim_eq_self {s : List Char} (h : IsTrimmed s) : trim s = s := by
  rw [trim, trimStart_eq_self h.1, trimEnd_eq_self h.2]

/-- A text is trimmed if what it begins with begins without a blank and what it ends with ends
without one. -/
theorem isTrimmed_append {u v : List Char} (hu : u ≠ []) (hv : v ≠ [])
    (hs : ∀ c ∈ u.head?, isBlank c = false) (he : ∀ c ∈ v.getLast?, isBlank c = false) :
    IsTrimmed (u ++ v) := by
  refine ⟨fun c hc => hs c ?_, fun c hc => he c ?_⟩
  · rwa [List.head?_append_of_ne_nil u hu] at hc
  · rwa [List.getLast?_append_of_ne_nil u hv] at hc

theorem trim_blanks_append {b : List Char} (hb : ∀ c ∈ b, isBlank c = true) (s : List Char) :
    trim (b ++ s) = trim s := by
  rw [trim, trimStart, List.dropWhile_append_of_pos hb, ← trimStart, ← trim]

theorem trim_append_blanks {b : List Char} (hb : ∀ c ∈ b, isBlank c = true) (s : List Char) :
    trim (s ++ b) = trim s := by
  have hend (u : List Char) : trimEnd (u ++ b) = trimEnd u := by
    rw [trimEnd, trimEnd, List.reverse_append,
      List.dropWhile_append_of_pos fun c hc => hb c (List.mem_reverse.1 hc)]
  rw [trim, trim, trimStart, trimStart, List.dropWhile_append]
  split
  · next hs =>
    rw [List.isEmpty_iff.1 hs, List.dropWhile_eq_nil_iff.2 hb]
  · exact hend _

/-- Trimming removes blanks and nothing else. -/
theorem exists_blanks_around (s : List Char) : ∃ b e, (∀ c ∈ b, isBlank c = true) ∧
    (∀ c ∈ e, isBlank c = true) ∧ s = b ++ (trim s ++ e) := by
  refine ⟨s.takeWhile isBlank, ((trimStart s).reverse.takeWhile isBlank).reverse,
    fun c => List.mem_takeWhile_imp, fun c hc => List.mem_takeWhile_imp (List.mem_reverse.1 hc), ?_⟩
  rw [trim, trimEnd, ← List.reverse_append, List.takeWhile_append_dropWhile, List.reverse_reverse,
    trimStart, List.takeWhile_append_dropWhile]

theorem isBlank_head_trimStart {s : List Char} : ∀ c ∈ (trimStart s).head?, isBlank c = false := by
  intro c hc
  have := List.head?_dropWhile_not isBlank s
  rw [← trimStart, Option.mem_def.1 hc] at this
  simpa using this

theorem isBlank_getLast_trimEnd {s : List Char} :
    ∀ c ∈ (trimEnd s).getLast?, isBlank c = false := by
  intro c hc
  rw [trimEnd, List.getLast?_reverse] at hc
  exact isBlank_head_trimStart c hc

/-- What is left after trimming is trimmed. -/
theorem isTrimmed_trim (s : List Char) : IsTrimmed (trim s) := by
  refine ⟨fun c hc => ?_, isBlank_getLast_trimEnd⟩
  -- a text and what it begins with have the same first character
  obtain ⟨t, ht⟩ := trimEnd_prefix_self (trimStart s)
  refine isBlank_head_trimStart (s := s) c ?_
  rw [← ht]
  cases h : trimEnd (trimStart s) with
  | nil => simp [trim, h] at hc
  | cons d u => simpa [trim, h] using hc

end Text
end Choropleth
