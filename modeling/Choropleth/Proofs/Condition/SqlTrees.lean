import Choropleth.Proofs.Condition.Binding
import Choropleth.Proofs.Condition.SqlWords

/-!
# The trees of conditions

The text of a condition is read as what the condition means: its clauses all have to hold, the
alternatives of a clause stand together, and every value goes to its own place.

* `Sql.Means`: a tree has the places and the truth of something;
* `Clause.operands`: what stands between the words `AND` of a text;
* `exists_read?_sql`: the text of plain clauses has a tree that means the condition;
* `Condition.sql_accepts_iff`: a text accepts the rows that its condition accepts.
-/

namespace Choropleth
namespace Sql

/-! ### Meaning -/

/-- A tree has the places and the truth of something. -/
structure Means (e : Expr) (n : ℕ) (f : FactRow → List Datum → Truth) : Prop where
  arity : e.arity = n
  truth : ∀ row vs, vs.length = n → e.truth row vs = f row vs

theorem Means.test (t : Test) : Means (.test t) t.arity fun row vs => t.truth row vs :=
  ⟨rfl, fun _ _ _ => rfl⟩

theorem Means.both {e e' : Expr} {m n : ℕ} {f g : FactRow → List Datum → Truth}
    (he : Means e m f) (he' : Means e' n g) :
    Means (.both e e') (m + n) fun row vs =>
      Truth.both (f row (vs.take m)) (g row (vs.drop m)) := by
  refine ⟨by rw [Expr.arity, he.arity, he'.arity], fun row vs h => ?_⟩
  obtain ⟨htake, hdrop⟩ := length_take_drop h
  rw [Expr.truth, he.arity, he.truth row _ htake, he'.truth row _ hdrop]

theorem Means.either {e e' : Expr} {m n : ℕ} {f g : FactRow → List Datum → Truth}
    (he : Means e m f) (he' : Means e' n g) :
    Means (.either e e') (m + n) fun row vs =>
      Truth.either (f row (vs.take m)) (g row (vs.drop m)) := by
  refine ⟨by rw [Expr.arity, he.arity, he'.arity], fun row vs h => ?_⟩
  obtain ⟨htake, hdrop⟩ := length_take_drop h
  rw [Expr.truth, he.arity, he.truth row _ htake, he'.truth row _ hdrop]

/-! ### Reading tests -/

/-- Nothing follows but what closes a bracket. -/
def IsEnd (r : List Lexeme) : Prop := ∀ l ∈ r.head?, l = .closing

theorem isEnd_nil : IsEnd [] := nofun

theorem isEnd_closing (r : List Lexeme) : IsEnd (.closing :: r) := by
  rintro _ ⟨⟩
  rfl

/-- A comparison may end here. -/
def IsBreak (r : List Lexeme) : Prop := ∀ l ∈ r.head?, l = .and ∨ l = .or ∨ l = .closing

theorem IsEnd.isBreak {r : List Lexeme} (h : IsEnd r) : IsBreak r :=
  fun l hl => .inr (.inr (h l hl))

theorem isBreak_and (r : List Lexeme) : IsBreak (.and :: r) := by
  rintro _ ⟨⟩
  exact .inl rfl

theorem isBreak_or (r : List Lexeme) : IsBreak (.or :: r) := by
  rintro _ ⟨⟩
  exact .inr (.inl rfl)

theorem readPlaces?_joined (n : ℕ) (r : List Lexeme) :
    readPlaces? (joined .comma (List.replicate (n + 1) [.place]) ++ .closing :: r) =
      some (n + 1, r) := by
  induction n with
  | zero => rfl
  | succ n ih =>
    rw [List.replicate_succ, List.replicate_succ, joined, ← List.replicate_succ,
      List.append_assoc]
    show (readPlaces? (joined .comma (List.replicate (n + 1) [.place]) ++ .closing :: r)).map _ = _
    rw [ih]
    rfl

theorem readOperand?_test {t : Test} (h : t.IsPlain) {r : List Lexeme} (hr : IsBreak r) (n : ℕ) :
    readOperand? (n + 1) (t.lexemes ++ r) = some (.test t, r) := by
  cases t with
  | holds c =>
    cases r with
    | nil => rfl
    | cons l r => rcases hr l rfl with rfl | rfl | rfl <;> rfl
  | oneOf c m =>
    obtain ⟨m, rfl⟩ := Nat.exists_eq_succ_of_ne_zero (Nat.pos_iff_ne_zero.1 h)
    have hplaces := readPlaces?_joined m r
    simp [Test.lexemes, readOperand?, readTest?, hplaces]
  | withinDistance => exact h.elim
  | meetsRing => exact h.elim
  | _ => rfl

theorem length_lexemes_pos {t : Test} (h : t.IsPlain) : 0 < t.lexemes.length := by
  cases t with
  | withinDistance => exact h.elim
  | meetsRing => exact h.elim
  | _ => simp [Test.lexemes]

/-! ### Reading operands -/

theorem readBoth?_of_and {n : ℕ} {ts r : List Lexeme} {e : Expr}
    (h : readOperand? n ts = some (e, .and :: r)) :
    readBoth? (n + 1) ts = (readBoth? n r).map fun p => (.both e p.1, p.2) := by
  rw [readBoth?, h]

/-- An operand in front of anything but `AND` stands for itself. -/
theorem readBoth?_of_ne {n : ℕ} {ts r : List Lexeme} {e : Expr}
    (h : readOperand? n ts = some (e, r)) (hr : ∀ s, r ≠ .and :: s) :
    readBoth? (n + 1) ts = some (e, r) := by
  rw [readBoth?, h]
  split
  · next heq =>
    obtain ⟨-, rfl⟩ := Prod.mk.inj (Option.some.inj heq)
    exact absurd rfl (hr _)
  · rfl

theorem readEither?_of_or {n : ℕ} {ts r : List Lexeme} {e : Expr}
    (h : readBoth? n ts = some (e, .or :: r)) :
    readEither? (n + 1) ts = (readEither? n r).map fun p => (.either e p.1, p.2) := by
  rw [readEither?, h]

/-- Alternatives end in front of anything but `OR`. -/
theorem readEither?_of_ne {n : ℕ} {ts r : List Lexeme} {e : Expr}
    (h : readBoth? n ts = some (e, r)) (hr : ∀ s, r ≠ .or :: s) :
    readEither? (n + 1) ts = some (e, r) := by
  rw [readEither?, h]
  split
  · next heq =>
    obtain ⟨-, rfl⟩ := Prod.mk.inj (Option.some.inj heq)
    exact absurd rfl (hr _)
  · rfl

theorem readOperand?_opening {n : ℕ} {ts r : List Lexeme} {e : Expr}
    (h : readEither? n ts = some (e, .closing :: r)) :
    readOperand? (n + 1) (.opening :: ts) = some (e, r) := by
  rw [readOperand?, h]

theorem IsEnd.ne_cons {r : List Lexeme} (h : IsEnd r) {l : Lexeme} (hl : l ≠ .closing)
    (s : List Lexeme) : r ≠ l :: s := by
  rintro rfl
  exact hl (h l rfl)

theorem joined_map_cons {α : Type} (l : Lexeme) (f : α → List Lexeme) (a b : α) (as : List α) :
    joined l ((a :: b :: as).map f) = f a ++ l :: joined l ((b :: as).map f) := rfl

/-- Alternatives are read one after the other. -/
theorem exists_readEither? {ts : List Test} (hne : ts ≠ []) (h : ∀ t ∈ ts, t.IsPlain)
    {r : List Lexeme} (hr : IsEnd r) {n : ℕ}
    (hn : 3 * (joined .or (ts.map Test.lexemes)).length ≤ n) :
    ∃ e, readEither? n (joined .or (ts.map Test.lexemes) ++ r) = some (e, r) ∧
      Means e (Test.arities ts) fun row vs => Truth.any (Test.truths row ts vs) := by
  induction ts generalizing n with
  | nil => exact absurd rfl hne
  | cons t ts ih =>
    have ht := h t List.mem_cons_self
    have hpos := length_lexemes_pos ht
    -- the words of a test pay for the steps that lead to it
    cases ts with
    | nil =>
      have hn : 3 * t.lexemes.length ≤ n := hn
      obtain ⟨n, rfl⟩ : ∃ m, n = m + 3 := ⟨n - 3, by omega⟩
      have hboth := readBoth?_of_ne (readOperand?_test ht hr.isBreak n) (hr.ne_cons nofun)
      refine ⟨.test t, readEither?_of_ne hboth (hr.ne_cons nofun), rfl, fun row vs hvs => ?_⟩
      have hvs : vs.take t.arity = vs := List.take_of_length_le hvs.le
      show t.truth row vs = Truth.either (t.truth row (vs.take t.arity)) (some false)
      rw [hvs, Truth.either_false]
    | cons u us =>
      rw [joined_map_cons, List.length_append, List.length_cons] at hn
      obtain ⟨n, rfl⟩ : ∃ m, n = m + 3 := ⟨n - 3, by omega⟩
      obtain ⟨e, he, hmeans⟩ := ih (List.cons_ne_nil u us)
        (fun v hv => h v (List.mem_cons_of_mem t hv)) (n := n + 2) (by omega)
      have hbreak := isBreak_or (joined .or ((u :: us).map Test.lexemes) ++ r)
      have hboth := readBoth?_of_ne (readOperand?_test ht hbreak n) nofun
      refine ⟨.either (.test t) e, ?_, (Means.test t).either hmeans⟩
      rw [joined_map_cons, List.append_assoc, List.cons_append, readEither?_of_or hboth, he]
      rfl

end Sql

/-! ### Operands -/

open Sql

namespace Clause

/-- What stands between the words `AND` of a clause: tests, or alternatives in brackets. -/
def operands : Clause → List Clause
  | all ts => ts.map one
  | any ts => [any ts]

/-- One test, or alternatives. -/
def IsOperand (c : Clause) : Prop := (∃ t, c = one t) ∨ ∃ ts, c = any ts

theorem isOperand_of_mem {c d : Clause} (h : d ∈ c.operands) : d.IsOperand := by
  cases c with
  | all ts =>
    obtain ⟨t, -, rfl⟩ := List.mem_map.1 h
    exact .inl ⟨t, rfl⟩
  | any ts =>
    obtain rfl := List.mem_singleton.1 h
    exact .inr ⟨ts, rfl⟩

theorem IsPlain.operands {c d : Clause} (hc : c.IsPlain) (h : d ∈ c.operands) : d.IsPlain := by
  cases c with
  | all ts =>
    obtain ⟨t, ht, rfl⟩ := List.mem_map.1 h
    exact ⟨List.cons_ne_nil t [], fun u hu => List.mem_singleton.1 hu ▸ hc.2 t ht⟩
  | any ts =>
    obtain rfl := List.mem_singleton.1 h
    exact hc

theorem IsPlain.operands_ne_nil {c : Clause} (hc : c.IsPlain) : c.operands ≠ [] := by
  cases c with
  | all ts => exact fun h => hc.1 (List.map_eq_nil_iff.1 h)
  | any ts => exact List.cons_ne_nil _ _

theorem joined_lexemes_operands (c : Clause) :
    joined .and (c.operands.map lexemes) = c.lexemes := by
  cases c with
  | all ts =>
    rw [operands, List.map_map]
    rfl
  | any ts => rfl

theorem arities_operands (c : Clause) : arities c.operands = c.arity := by
  cases c with
  | all ts =>
    show arities (ts.map one) = Test.arities ts
    induction ts with
    | nil => rfl
    | cons t ts ih =>
      rw [List.map_cons, arities, ih]
      rfl
  | any ts => rfl

theorem truths_map_one (row : FactRow) (ts : List Test) (vs : List Datum) :
    truths row (ts.map one) vs = Test.truths row ts vs := by
  induction ts generalizing vs with
  | nil => rfl
  | cons t ts ih =>
    have harity : (one t).arity = t.arity := rfl
    have hone : (one t).truth row (vs.take t.arity) = t.truth row (vs.take t.arity) := by
      show Truth.both (t.truth row ((vs.take t.arity).take t.arity)) (some true) = _
      rw [Truth.both_true, List.take_take, Nat.min_self]
    rw [List.map_cons, truths, Test.truths, harity, hone, ih]

/-- The operands of a clause hold together if the clause does. -/
theorem truth_operands {c : Clause} (row : FactRow) {vs : List Datum} (h : vs.length = c.arity) :
    Truth.all (truths row c.operands vs) = c.truth row vs := by
  cases c with
  | all ts =>
    show Truth.all (truths row (ts.map one) vs) = Truth.all (Test.truths row ts vs)
    rw [truths_map_one]
  | any ts =>
    have hvs : vs.take (any ts).arity = vs := List.take_of_length_le h.le
    show Truth.both ((any ts).truth row (vs.take (any ts).arity)) (some true) = _
    rw [hvs, Truth.both_true]

/-- The operands of clauses hold together if the clauses do. -/
theorem truths_flatMap_operands {cs : List Clause} (row : FactRow) {vs : List Datum}
    (h : vs.length = arities cs) :
    Truth.all (truths row (cs.flatMap operands) vs) = Truth.all (truths row cs vs) := by
  induction cs generalizing vs with
  | nil => rfl
  | cons c cs ih =>
    obtain ⟨htake, hdrop⟩ := length_take_drop h
    -- the operands of the first clause take the values of the first clause
    have hsplit := truths_append row (htake.trans (arities_operands c).symm)
      (cs.flatMap operands) (vs.drop c.arity)
    rw [List.take_append_drop] at hsplit
    rw [List.flatMap_cons, hsplit, Truth.all_append, truth_operands row htake, ih hdrop]
    rfl

theorem arities_flatMap_operands (cs : List Clause) :
    arities (cs.flatMap operands) = arities cs := by
  induction cs with
  | nil => rfl
  | cons c cs ih => rw [List.flatMap_cons, arities_append, arities_operands, ih, arities]

/-! ### Reading clauses -/

theorem IsPlain.length_lexemes_pos {c : Clause} (h : c.IsPlain) (ho : c.IsOperand) :
    0 < c.lexemes.length := by
  rcases ho with ⟨t, rfl⟩ | ⟨ts, rfl⟩
  · exact Sql.length_lexemes_pos (h.2 t (List.mem_singleton_self t))
  · simp [lexemes]

/-- An operand is read as what it means. -/
theorem exists_readOperand? {c : Clause} (h : c.IsPlain) (ho : c.IsOperand) {r : List Lexeme}
    (hr : IsBreak r) {n : ℕ} (hn : 3 * c.lexemes.length ≤ n + 1) :
    ∃ e, readOperand? n (c.lexemes ++ r) = some (e, r) ∧
      Means e c.arity fun row vs => c.truth row vs := by
  have hpos := h.length_lexemes_pos ho
  obtain ⟨n, rfl⟩ : ∃ m, n = m + 1 := ⟨n - 1, by omega⟩
  rcases ho with ⟨t, rfl⟩ | ⟨ts, rfl⟩
  · have ht := h.2 t (List.mem_singleton_self t)
    refine ⟨.test t, readOperand?_test ht hr n, rfl, fun row vs hvs => ?_⟩
    have hvs : vs.take t.arity = vs := List.take_of_length_le (Nat.le_of_eq hvs)
    show t.truth row vs = Truth.both (t.truth row (vs.take t.arity)) (some true)
    rw [hvs, Truth.both_true]
  · simp only [lexemes, List.length_cons, List.length_append, List.length_nil] at hn
    have hne : ts ≠ [] := h.1
    have hts : ∀ t ∈ ts, t.IsPlain := h.2
    obtain ⟨e, he, hmeans⟩ := exists_readEither? hne hts (isEnd_closing r) (n := n) (by omega)
    refine ⟨e, ?_, hmeans⟩
    rw [lexemes, List.cons_append, List.append_assoc, List.singleton_append,
      readOperand?_opening he]

/-- Operands with `AND` between them are read as all of them. -/
theorem exists_readBoth? {cs : List Clause} (hne : cs ≠ []) (h : ∀ c ∈ cs, c.IsPlain)
    (ho : ∀ c ∈ cs, c.IsOperand) {r : List Lexeme} (hr : IsEnd r) {n : ℕ}
    (hn : 3 * (joined .and (cs.map lexemes)).length ≤ n) :
    ∃ e, readBoth? n (joined .and (cs.map lexemes) ++ r) = some (e, r) ∧
      Means e (arities cs) fun row vs => Truth.all (truths row cs vs) := by
  induction cs generalizing n with
  | nil => exact absurd rfl hne
  | cons c cs ih =>
    have hc := h c List.mem_cons_self
    have hoc := ho c List.mem_cons_self
    have hpos := hc.length_lexemes_pos hoc
    cases cs with
    | nil =>
      have hn : 3 * c.lexemes.length ≤ n := hn
      obtain ⟨n, rfl⟩ : ∃ m, n = m + 1 := ⟨n - 1, by omega⟩
      obtain ⟨e, he, hmeans⟩ := exists_readOperand? hc hoc hr.isBreak hn
      refine ⟨e, readBoth?_of_ne he (hr.ne_cons nofun), hmeans.arity, fun row vs hvs => ?_⟩
      have hvs : vs.length = c.arity := hvs
      have htake : vs.take c.arity = vs := List.take_of_length_le hvs.le
      show e.truth row vs = Truth.both (c.truth row (vs.take c.arity)) (some true)
      rw [htake, Truth.both_true, hmeans.truth row vs hvs]
    | cons d ds =>
      rw [joined_map_cons, List.length_append, List.length_cons] at hn
      obtain ⟨n, rfl⟩ : ∃ m, n = m + 1 := ⟨n - 1, by omega⟩
      obtain ⟨e, he, hmeans⟩ := exists_readOperand? hc hoc (n := n) (isBreak_and
        (joined .and ((d :: ds).map lexemes) ++ r)) (by omega)
      obtain ⟨e', he', hmeans'⟩ := ih (List.cons_ne_nil d ds)
        (fun c' hc' => h c' (List.mem_cons_of_mem c hc'))
        (fun c' hc' => ho c' (List.mem_cons_of_mem c hc')) (n := n) (by omega)
      refine ⟨.both e e', ?_, hmeans.both hmeans'⟩
      rw [joined_map_cons, List.append_assoc, List.cons_append, readBoth?_of_and he, he']
      rfl

end Clause

/-! ### Texts of conditions -/

namespace Sql

theorem joined_map_append {α : Type} {l : Lexeme} (f : α → List Lexeme) {as bs : List α}
    (has : as ≠ []) (hbs : bs ≠ []) :
    joined l ((as ++ bs).map f) = joined l (as.map f) ++ l :: joined l (bs.map f) := by
  obtain ⟨b, bs, rfl⟩ := List.exists_cons_of_ne_nil hbs
  induction as with
  | nil => exact absurd rfl has
  | cons a as ih =>
    cases as with
    | nil => rfl
    | cons a' as =>
      have ih := ih (List.cons_ne_nil a' as)
      rw [List.cons_append] at ih
      rw [List.cons_append, List.cons_append, joined_map_cons, ih, joined_map_cons,
        List.append_assoc, List.cons_append]

/-- Joining parts that are joined themselves joins everything. -/
theorem joined_flatMap {α β : Type} {l : Lexeme} {f : α → List β} {g : β → List Lexeme}
    {as : List α} (h : ∀ a ∈ as, f a ≠ []) :
    joined l (as.map fun a => joined l ((f a).map g)) = joined l ((as.flatMap f).map g) := by
  induction as with
  | nil => rfl
  | cons a as ih =>
    cases as with
    | nil => simp [joined]
    | cons b bs =>
      have hb : (b :: bs).flatMap f ≠ [] := by
        have := h b (by simp)
        simp [this]
      rw [joined_map_cons, ih fun a' ha' => h a' (List.mem_cons_of_mem a ha'),
        ← joined_map_append g (h a List.mem_cons_self) hb]
      rfl

end Sql

namespace Condition

/-- A condition of plain clauses, at least one. -/
def IsPlain (q : Condition) : Prop := q.clauses ≠ [] ∧ ∀ c ∈ q.clauses, c.IsPlain

/-- **The text of plain clauses has a tree, and the tree means the condition.** -/
theorem exists_read?_sql {q : Condition} (h : q.IsPlain) :
    ∃ e, read? q.sql = some e ∧
      Means e (Clause.arities q.clauses) fun row vs =>
        Truth.all (Clause.truths row q.clauses vs) := by
  have hne : q.clauses.flatMap Clause.operands ≠ [] := by
    obtain ⟨c, cs, hcs⟩ := List.exists_cons_of_ne_nil h.1
    have hc := (h.2 c (by rw [hcs]; exact List.mem_cons_self)).operands_ne_nil
    rw [hcs, List.flatMap_cons]
    exact fun hnil => hc (List.append_eq_nil_iff.1 hnil).1
  have hplain : ∀ d ∈ q.clauses.flatMap Clause.operands, d.IsPlain := by
    intro d hd
    obtain ⟨c, hc, hd⟩ := List.mem_flatMap.1 hd
    exact (h.2 c hc).operands hd
  have hoperand : ∀ d ∈ q.clauses.flatMap Clause.operands, d.IsOperand := by
    intro d hd
    obtain ⟨c, -, hd⟩ := List.mem_flatMap.1 hd
    exact Clause.isOperand_of_mem hd
  -- clauses of several tests stand without brackets, so that the text is one row of operands
  have hlexemes : q.lexemes =
      Sql.joined .and ((q.clauses.flatMap Clause.operands).map Clause.lexemes) := by
    rw [← joined_flatMap fun c hc => (h.2 c hc).operands_ne_nil]
    simp only [Clause.joined_lexemes_operands]
    rfl
  obtain ⟨e, he, hmeans⟩ := Clause.exists_readBoth? hne hplain hoperand isEnd_nil
    (n := 3 * q.lexemes.length + 2) (by rw [← hlexemes]; omega)
  rw [← hlexemes, List.append_nil] at he
  refine ⟨e, ?_, hmeans.arity.trans (Clause.arities_flatMap_operands _), fun row vs hvs => ?_⟩
  · have htop := readEither?_of_ne he (isEnd_nil.ne_cons (by decide))
    rw [read?, lexemes?_sql h.2]
    dsimp only [Option.bind_eq_bind, Option.bind_some]
    rw [htop]
  · rw [hmeans.truth row vs (hvs.trans (Clause.arities_flatMap_operands _).symm),
      Clause.truths_flatMap_operands row hvs]

/-- **The text of a condition accepts the rows that the condition accepts.** -/
theorem sql_accepts_iff {q : Condition} (h : q.IsPlain) (hb : q.IsBound) (row : FactRow) :
    Sql.Accepts q.sql q.values row ↔ q.accepts row = true := by
  obtain ⟨e, he, hmeans⟩ := exists_read?_sql h
  have htruth := hmeans.truth row q.values hb
  rw [accepts_iff, truth, ← htruth]
  constructor
  · rintro ⟨e', he', -, htrue⟩
    obtain rfl := Option.some.inj (he.symm.trans he')
    exact htrue
  · exact fun htrue => ⟨e, he, hmeans.arity.trans hb.symm, htrue⟩

end Condition
end Choropleth
