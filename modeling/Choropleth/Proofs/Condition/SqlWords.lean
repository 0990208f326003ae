import Mathlib.Data.List.Infix
import Choropleth.Proofs.Condition.Sql

/-!
# The words of conditions

The text of a condition, cut into words and signs, is what its tests and clauses are made of.

* `Test.lexemes`, `Clause.lexemes`, `Condition.lexemes`: words and signs;
* `Test.IsPlain`, `Clause.IsPlain`: tests without calls on coordinates, and clauses of them;
* `lexemes?_sql`: a text of plain clauses has the words and signs of its clauses.
-/

namespace Choropleth
namespace Sql

/-! ### Cutting -/

/-- What follows a word or a sign does not go on with it. -/
def IsEdge (s : List Char) : Prop := ∀ c ∈ s.head?, isNameChar c = false ∧ isSignChar c = false

/-- The characters belong to one word or to one sign. -/
def IsRun (w : List Char) : Prop :=
  w.all (fun c => !Text.isBlank c) = true ∧ (w.all isNameChar || w.all isSignChar) = true

instance (w : List Char) : Decidable (IsRun w) := inferInstanceAs (Decidable (_ = _ ∧ _ = _))

/-- A word or a sign is cut off where it ends. -/
theorem scan_run {w s : List Char} (hne : w ≠ []) (hw : IsRun w) (hs : IsEdge s) :
    scan (w ++ s) = w :: scan s := by
  induction w with
  | nil => exact absurd rfl hne
  | cons c w ih =>
    obtain ⟨hnone, hsame⟩ := hw
    rw [List.all_cons, Bool.and_eq_true, Bool.not_eq_true'] at hnone
    obtain ⟨hblank, hnone⟩ := hnone
    rw [List.cons_append, scan, hblank, if_neg Bool.false_ne_true]
    cases w with
    | nil =>
      -- the word ends here, since what follows does not go on with it
      have hjoin : s.head?.any (joins c) = false := by
        rw [Option.any_eq_false]
        intro d hd
        simp [joins, (hs d hd).1, (hs d hd).2]
      rw [List.nil_append, hjoin, if_neg Bool.false_ne_true]
    | cons d w =>
      simp only [List.all_cons, Bool.or_eq_true, Bool.and_eq_true] at hsame
      have hjoin : joins c d = true := by
        rcases hsame with ⟨hc, hd, -⟩ | ⟨hc, hd, -⟩
        · simp [joins, hc, hd]
        · simp [joins, hc, hd]
      have hrest : IsRun (d :: w) := by
        refine ⟨hnone, ?_⟩
        simp only [List.all_cons, Bool.or_eq_true, Bool.and_eq_true]
        exact hsame.imp And.right And.right
      rw [ih (List.cons_ne_nil d w) hrest]
      simp [hjoin, Text.consFirst]

/-- Text that is read word by word, in front of whatever does not go on with its last word. -/
def Reads (u : List Char) (ls : List Lexeme) : Prop :=
  ∀ s, IsEdge s → lexemes? (u ++ s) = (lexemes? s).map (ls ++ ·)

theorem reads_nil : Reads [] [] := by
  intro s _
  simp

theorem reads_run {w : List Char} {l : Lexeme} (hne : w ≠ []) (hw : IsRun w)
    (hl : lexeme? w = some l) : Reads w [l] := by
  intro s hs
  rw [lexemes?, scan_run hne hw hs, List.mapM_cons, hl, lexemes?]
  cases (scan s).mapM lexeme? <;> rfl

/-- A sign of one character needs no edge. -/
theorem lexemes?_sign {c : Char} {l : Lexeme} (hblank : Text.isBlank c = false)
    (hjoin : ∀ d, joins c d = false) (hl : lexeme? [c] = some l) (s : List Char) :
    lexemes? (c :: s) = (lexemes? s).map (l :: ·) := by
  have hhead : s.head?.any (joins c) = false := by
    rw [Option.any_eq_false]
    exact fun d _ => by simp [hjoin]
  rw [lexemes?, scan, hblank, if_neg Bool.false_ne_true, hhead, if_neg Bool.false_ne_true,
    List.mapM_cons, hl, lexemes?]
  cases (scan s).mapM lexeme? <;> rfl

theorem lexemes?_blank {c : Char} (h : Text.isBlank c = true) (s : List Char) :
    lexemes? (c :: s) = lexemes? s := by
  rw [lexemes?, scan, if_pos h, lexemes?]

theorem isEdge_cons {c : Char} (hc : isNameChar c = false ∧ isSignChar c = false)
    (s : List Char) : IsEdge (c :: s) := by
  rintro _ ⟨⟩
  exact hc

/-- Texts with an edge between them are read one after the other. -/
theorem Reads.append {u v : List Char} {ls ms : List Lexeme} (hu : Reads u ls) (hv : Reads v ms)
    (hedge : ∀ s, IsEdge s → IsEdge (v ++ s)) : Reads (u ++ v) (ls ++ ms) := by
  intro s hs
  rw [List.append_assoc, hu _ (hedge s hs), hv s hs, Option.map_map]
  simp [Function.comp_def]

theorem Reads.cons_blank {c : Char} (h : Text.isBlank c = true) {u : List Char}
    {ls : List Lexeme} (hu : Reads u ls) : Reads (c :: u) ls := by
  intro s hs
  rw [List.cons_append, lexemes?_blank h, hu s hs]

theorem Reads.cons_sign {c : Char} {l : Lexeme} (hblank : Text.isBlank c = false)
    (hjoin : ∀ d, joins c d = false) (hl : lexeme? [c] = some l) {u : List Char}
    {ls : List Lexeme} (hu : Reads u ls) : Reads (c :: u) (l :: ls) := by
  intro s hs
  rw [List.cons_append, lexemes?_sign hblank hjoin hl, hu s hs, Option.map_map]
  rfl

/-! ### Joined texts -/

/-- Words and signs with a separator between neighbours. -/
def joined (l : Lexeme) : List (List Lexeme) → List Lexeme
  | [] => []
  | [ls] => ls
  | ls :: ms :: r => ls ++ l :: joined l (ms :: r)

/-- A text that stands for a word or a sign between any two others. -/
structure Separates (sep : List Char) (l : Lexeme) : Prop where
  edge : ∀ s, IsEdge (sep ++ s)
  reads : ∀ u ls, Reads u ls → Reads (sep ++ u) (l :: ls)

theorem reads_joinWith {sep : List Char} {l : Lexeme} (hsep : Separates sep l) {α : Type}
    {f : α → List Char} {g : α → List Lexeme} (xs : List α) (h : ∀ x ∈ xs, Reads (f x) (g x)) :
    Reads (Text.joinWith sep (xs.map f)) (joined l (xs.map g)) := by
  induction xs with
  | nil => exact reads_nil
  | cons x xs ih =>
    have hx := h x List.mem_cons_self
    have hxs := ih fun y hy => h y (List.mem_cons_of_mem x hy)
    cases xs with
    | nil => exact hx
    | cons y ys =>
      rw [List.map_cons, List.map_cons, Text.joinWith, List.append_assoc]
      refine hx.append (hsep.reads _ _ hxs) fun s _ => ?_
      rw [List.append_assoc]
      exact hsep.edge _

/-- A word with blanks around it separates. -/
theorem separates_word {b e : Char} (hb : Text.isBlank b = true) (he : Text.isBlank e = true)
    (hbn : isNameChar b = false ∧ isSignChar b = false)
    (hen : isNameChar e = false ∧ isSignChar e = false) {w : List Char} {l : Lexeme} (hne : w ≠ [])
    (hw : IsRun w) (hl : lexeme? w = some l) : Separates (b :: (w ++ [e])) l := by
  refine ⟨fun s => isEdge_cons hbn _, fun u ls hu => ?_⟩
  rw [List.cons_append, List.append_assoc, List.singleton_append]
  exact ((reads_run hne hw hl).append (hu.cons_blank he) fun s _ => isEdge_cons hen _).cons_blank hb

theorem separates_and : Separates " AND ".toList .and :=
  separates_word (b := ' ') (e := ' ') (w := "AND".toList) (by decide) (by decide) (by decide)
    (by decide) (by decide) (by decide) (by decide)

theorem separates_and_line : Separates "\nAND ".toList .and :=
  separates_word (b := '\n') (e := ' ') (w := "AND".toList) (by decide) (by decide) (by decide)
    (by decide) (by decide) (by decide) (by decide)

theorem separates_or : Separates " OR ".toList .or :=
  separates_word (b := ' ') (e := ' ') (w := "OR".toList) (by decide) (by decide) (by decide)
    (by decide) (by decide) (by decide) (by decide)

theorem joins_of_not {c : Char} (h : isNameChar c = false ∧ isSignChar c = false) (d : Char) :
    joins c d = false := by simp [joins, h.1, h.2]

theorem separates_comma : Separates ", ".toList .comma := by
  refine ⟨fun s => isEdge_cons (by decide) _, fun u ls hu => ?_⟩
  exact (hu.cons_blank (c := ' ') (by decide)).cons_sign (c := ',') (by decide)
    (joins_of_not (by decide)) (by decide)

theorem reads_place : Reads ['?'] [.place] :=
  reads_nil.cons_sign (by decide) (joins_of_not (by decide)) (by decide)

theorem reads_closing : Reads [')'] [.closing] :=
  reads_nil.cons_sign (by decide) (joins_of_not (by decide)) (by decide)

theorem Reads.cons_opening {u : List Char} {ls : List Lexeme} (hu : Reads u ls) :
    Reads ('(' :: u) (.opening :: ls) :=
  hu.cons_sign (by decide) (joins_of_not (by decide)) (by decide)

theorem reads_column (c : Column) : Reads c.sql.toList [.column c] := by
  refine reads_run ?_ ?_ ?_ <;> cases c <;> decide

/-- A blank, a word or sign, a blank and what follows. -/
theorem Reads.cons_word {w : List Char} {l : Lexeme} (hne : w ≠ []) (hw : IsRun w)
    (hl : lexeme? w = some l) {u : List Char} {ls : List Lexeme} (hu : Reads u ls) :
    Reads (' ' :: (w ++ ' ' :: u)) (l :: ls) :=
  ((reads_run hne hw hl).append (hu.cons_blank (by decide))
    fun _ _ => isEdge_cons (by decide) _).cons_blank (by decide)

/-- A column, a word or sign and what follows, with blanks between them. -/
theorem reads_comparison (c : Column) {w : List Char} {l : Lexeme} (hne : w ≠ []) (hw : IsRun w)
    (hl : lexeme? w = some l) {u : List Char} {ls : List Lexeme} (hu : Reads u ls) :
    Reads (c.sql.toList ++ ' ' :: (w ++ ' ' :: u)) (.column c :: l :: ls) :=
  (reads_column c).append (hu.cons_word hne hw hl) fun _ _ => isEdge_cons (by decide) _

end Sql

/-! ### Tests and clauses -/

open Sql

namespace Test

/-- The words and signs of a test. -/
def lexemes : Test → List Lexeme
  | holds c => [.column c]
  | same c d => [.column c, .equal, .column d]
  | equals c => [.column c, .equal, .place]
  | oneOf c n =>
    .column c :: .among :: .opening :: (joined .comma (List.replicate n [.place]) ++ [.closing])
  | between c => [.column c, .between, .place, .and, .place]
  | startsWith c => [.startsWith, .opening, .column c, .comma, .place, .closing]
  | atLeast c => [.column c, .atLeast, .place]
  | atMost c => [.column c, .atMost, .place]
  | withinDistance => []
  | meetsRing => []

/-- A comparison of columns with each other or with at least one value. -/
def IsPlain : Test → Prop
  | oneOf _ n => 0 < n
  | withinDistance => False
  | meetsRing => False
  | _ => True

theorem reads_places (n : ℕ) :
    Reads (places n).toList (joined .comma (List.replicate n [.place])) := by
  have := reads_joinWith separates_comma (f := fun _ : Unit => "?".toList)
    (g := fun _ => [.place]) (List.replicate n ()) fun _ _ => reads_place
  simpa [places, Text.joinStrings] using this

theorem reads_sql {t : Test} (h : t.IsPlain) : Reads t.sql.toList t.lexemes := by
  cases t with
  | holds c =>
    show Reads c.sql.toList [.column c]
    exact reads_column c
  | same c d =>
    have := reads_comparison c (w := "=".toList) (l := .equal) (by decide) (by decide) (by decide)
      (reads_column d)
    show Reads (c.sql ++ " = " ++ d.sql).toList _
    simpa [lexemes] using this
  | equals c =>
    have := reads_comparison c (w := "=".toList) (l := .equal) (by decide) (by decide) (by decide)
      reads_place
    show Reads (c.sql ++ " = ?").toList _
    simpa [lexemes] using this
  | oneOf c n =>
    have hlist := (reads_places n).append reads_closing fun _ _ => isEdge_cons (by decide) _
    have := reads_comparison c (w := "IN".toList) (l := .among) (by decide) (by decide)
      (by decide) hlist.cons_opening
    show Reads (c.sql ++ " IN (" ++ places n ++ ")").toList _
    simpa [lexemes] using this
  | between c =>
    have hand := Reads.cons_word (w := "AND".toList) (l := .and) (by decide) (by decide)
      (by decide) reads_place
    have := reads_comparison c (w := "BETWEEN".toList) (l := .between) (by decide) (by decide)
      (by decide) (reads_place.append hand fun _ _ => isEdge_cons (by decide) _)
    show Reads (c.sql ++ " BETWEEN ? AND ?").toList _
    simpa [lexemes] using this
  | startsWith c =>
    have hrest := separates_comma.reads _ _ (reads_place.append reads_closing
      fun _ _ => isEdge_cons (by decide) _)
    have hcolumn := (reads_column c).append hrest fun _ _ => isEdge_cons (by decide) _
    have := (reads_run (w := "starts_with".toList) (l := .startsWith) (by decide) (by decide)
      (by decide)).append hcolumn.cons_opening fun _ _ => isEdge_cons (by decide) _
    show Reads ("starts_with(" ++ c.sql ++ ", ?)").toList _
    simpa [lexemes] using this
  | atLeast c =>
    have := reads_comparison c (w := ">=".toList) (l := .atLeast) (by decide) (by decide)
      (by decide) reads_place
    show Reads (c.sql ++ " >= ?").toList _
    simpa [lexemes] using this
  | atMost c =>
    have := reads_comparison c (w := "<=".toList) (l := .atMost) (by decide) (by decide)
      (by decide) reads_place
    show Reads (c.sql ++ " <= ?").toList _
    simpa [lexemes] using this
  | withinDistance => exact h.elim
  | meetsRing => exact h.elim

end Test

namespace Clause

/-- The words and signs of a clause. -/
def lexemes : Clause → List Lexeme
  | all ts => joined .and (ts.map Test.lexemes)
  | any ts => .opening :: (joined .or (ts.map Test.lexemes) ++ [.closing])

/-- A clause of plain tests, at least one. -/
def IsPlain (c : Clause) : Prop := c.tests ≠ [] ∧ ∀ t ∈ c.tests, t.IsPlain

theorem reads_sql {c : Clause} (h : c.IsPlain) : Reads c.sql.toList c.lexemes := by
  cases c with
  | all ts =>
    have := reads_joinWith separates_and (f := fun t : Test => t.sql.toList)
      (g := Test.lexemes) ts fun t ht => Test.reads_sql (h.2 t ht)
    simpa [sql, lexemes, Text.joinStrings, Function.comp_def] using this
  | any ts =>
    have hts := reads_joinWith separates_or (f := fun t : Test => t.sql.toList)
      (g := Test.lexemes) ts fun t ht => Test.reads_sql (h.2 t ht)
    have := (hts.append reads_closing fun _ _ => isEdge_cons (by decide) _).cons_opening
    simpa [sql, lexemes, Text.joinStrings, Function.comp_def] using this

end Clause

namespace Condition

/-- The words and signs of a condition. -/
def lexemes (q : Condition) : List Lexeme := Sql.joined .and (q.clauses.map Clause.lexemes)

/-- **The text of plain clauses has their words and signs.** -/
theorem lexemes?_sql {q : Condition} (h : ∀ c ∈ q.clauses, c.IsPlain) :
    lexemes? q.sql.toList = some q.lexemes := by
  have hr := reads_joinWith separates_and_line (f := fun c : Clause => c.sql.toList)
    (g := Clause.lexemes) q.clauses fun c hc => Clause.reads_sql (h c hc)
  have := hr [] (by simp [IsEdge])
  have hnil : lexemes? [] = some [] := rfl
  simpa [sql, Text.joinStrings, lexemes, Function.comp_def, hnil] using this

end Condition
end Choropleth
