import Mathlib.Data.List.Infix
import Mathlib.Data.String.Basic
import Choropleth.Condition.Meaning

/-!
# Values and their places

The values of a condition are as many as its places, and each clause gets its own. So a condition
that is built up accepts the rows that satisfy what was added, clause by clause.

* `Truth.all_eq_true`, `Truth.any_eq_true`: when several truths are true together;
* `Test.truths_append`, `Clause.truths_append`: parts side by side take their own values;
* `Condition.IsBound`: as many values as places;
* `Condition.accepts_add`: a clause more.
-/

namespace Choropleth

namespace Truth

@[simp] theorem both_eq_true {s t : Truth} :
    both s t = some true ↔ s = some true ∧ t = some true := by
  rcases s with _ | _ | _ <;> rcases t with _ | _ | _ <;> decide

@[simp] theorem either_eq_true {s t : Truth} :
    either s t = some true ↔ s = some true ∨ t = some true := by
  rcases s with _ | _ | _ <;> rcases t with _ | _ | _ <;> decide

@[simp] theorem both_true (t : Truth) : both t (some true) = t := by
  rcases t with _ | _ | _ <;> rfl

theorem true_both (t : Truth) : both (some true) t = t := by
  rcases t with _ | _ | _ <;> rfl

@[simp] theorem either_false (t : Truth) : either t (some false) = t := by
  rcases t with _ | _ | _ <;> rfl

theorem both_assoc (s t u : Truth) : both (both s t) u = both s (both t u) := by
  rcases s with _ | _ | _ <;> rcases t with _ | _ | _ <;> rcases u with _ | _ | _ <;> rfl

theorem all_append (ts us : List Truth) : all (ts ++ us) = both (all ts) (all us) := by
  induction ts with
  | nil => exact (true_both (all us)).symm
  | cons t ts ih =>
    show both t (all (ts ++ us)) = both (both t (all ts)) (all us)
    rw [ih, both_assoc]

theorem all_eq_true {ts : List Truth} : all ts = some true ↔ ∀ t ∈ ts, t = some true := by
  induction ts with
  | nil => simp [all]
  | cons t ts ih =>
    rw [List.forall_mem_cons, ← ih]
    exact both_eq_true

theorem any_eq_true {ts : List Truth} : any ts = some true ↔ ∃ t ∈ ts, t = some true := by
  induction ts with
  | nil => simp [any]
  | cons t ts ih =>
    rw [List.exists_mem_cons_iff, ← ih]
    exact either_eq_true

end Truth

theorem length_take_drop {m n : ℕ} {vs : List Datum} (h : vs.length = m + n) :
    (vs.take m).length = m ∧ (vs.drop m).length = n := by
  rw [List.length_take, List.length_drop]
  omega

namespace Test

theorem arities_append (ts us : List Test) : arities (ts ++ us) = arities ts + arities us := by
  induction ts with
  | nil => simp [arities]
  | cons t ts ih => rw [List.cons_append, arities, arities, ih, Nat.add_assoc]

/-- Tests side by side take their own values. -/
theorem truths_append (r : FactRow) {ts : List Test} {vs : List Datum}
    (h : vs.length = arities ts) (us : List Test) (ws : List Datum) :
    truths r (ts ++ us) (vs ++ ws) = truths r ts vs ++ truths r us ws := by
  induction ts generalizing vs with
  | nil =>
    obtain rfl := List.length_eq_zero_iff.1 h
    rfl
  | cons t ts ih =>
    have hle : t.arity ≤ vs.length := by
      rw [h, arities]
      omega
    have hdrop := (length_take_drop h).2
    rw [List.cons_append, truths, truths, List.take_append_of_le_length hle,
      List.drop_append_of_le_length hle, ih hdrop, List.cons_append]

end Test

namespace Clause

/-- How many values clauses take together. -/
def arities : List Clause → ℕ
  | [] => 0
  | c :: cs => c.arity + arities cs

theorem arities_append (cs ds : List Clause) : arities (cs ++ ds) = arities cs + arities ds := by
  induction cs with
  | nil => simp [arities]
  | cons c cs ih => rw [List.cons_append, arities, arities, ih, Nat.add_assoc]

/-- Clauses side by side take their own values. -/
theorem truths_append (r : FactRow) {cs : List Clause} {vs : List Datum}
    (h : vs.length = arities cs) (ds : List Clause) (ws : List Datum) :
    truths r (cs ++ ds) (vs ++ ws) = truths r cs vs ++ truths r ds ws := by
  induction cs generalizing vs with
  | nil =>
    obtain rfl := List.length_eq_zero_iff.1 h
    rfl
  | cons c cs ih =>
    have hle : c.arity ≤ vs.length := by
      rw [h, arities]
      omega
    have hdrop := (length_take_drop h).2
    rw [List.cons_append, truths, truths, List.take_append_of_le_length hle,
      List.drop_append_of_le_length hle, ih hdrop, List.cons_append]

/-- A clause of one test is that test. -/
theorem truth_one (r : FactRow) (t : Test) {vs : List Datum} (h : vs.length = t.arity) :
    (one t).truth r vs = some true ↔ t.truth r vs = some true := by
  rw [one, truth, Truth.all_eq_true]
  simp [Test.truths, ← h]

end Clause

namespace Condition

/-- The condition has as many values as places. -/
def IsBound (q : Condition) : Prop := q.values.length = Clause.arities q.clauses

theorem IsBound.add {q : Condition} (h : q.IsBound) {c : Clause} {vs : List Datum}
    (hc : vs.length = c.arity) : (q.add c vs).IsBound := by
  have hadd : Clause.arities [c] = c.arity := rfl
  rw [IsBound, Condition.add, List.length_append, h, hc, Clause.arities_append, hadd]

theorem accepts_iff {q : Condition} {r : FactRow} :
    q.accepts r = true ↔ q.truth r = some true := decide_eq_true_iff

/-- With a clause more, a condition accepts the rows that satisfy the clause, too. -/
theorem accepts_add {q : Condition} (h : q.IsBound) {c : Clause} {vs : List Datum}
    (hc : vs.length = c.arity) (r : FactRow) :
    (q.add c vs).accepts r = true ↔ q.accepts r = true ∧ c.truth r vs = some true := by
  have htruths : Clause.truths r [c] vs = [c.truth r vs] := by
    simp [Clause.truths, ← hc]
  rw [accepts_iff, accepts_iff, truth, truth, Condition.add, Clause.truths_append r h, htruths,
    Truth.all_eq_true, Truth.all_eq_true, List.forall_mem_append, List.forall_mem_singleton]

end Condition

/-! ### Comparisons that are true -/

namespace Datum

theorem eq_text_iff {s t : String} : eq (.text s) (.text t) = some true ↔ s = t := by
  simp only [eq, le, Truth.both_eq_true, Option.some.injEq, decide_eq_true_eq]
  exact ⟨fun h => le_antisymm h.1 h.2, fun h => h ▸ ⟨le_rfl, le_rfl⟩⟩

theorem eq_int_iff {i j : ℤ} : eq (.int i) (.int j) = some true ↔ i = j := by
  simp only [eq, le, Truth.both_eq_true, Option.some.injEq, decide_eq_true_eq]
  exact ⟨fun h => le_antisymm h.1 h.2, fun h => h ▸ ⟨le_rfl, le_rfl⟩⟩

theorem le_text_iff {s t : String} : le (.text s) (.text t) = some true ↔ s ≤ t := by
  simp [le]

theorem startsWith_iff {s t : String} :
    startsWith (.text s) (.text t) = some true ↔ t.toList <+: s.toList := by
  simp [startsWith]

/-- A number is at most another that is there. -/
theorem le_ofOption_iff {x : Float} {y : Option Float} :
    le (.real x) (Column.ofOption y) = some true ↔ ∃ z ∈ y, realLe x z = true := by
  cases y <;> simp [Column.ofOption, le]

theorem ofOption_le_iff {x : Option Float} {y : Float} :
    le (Column.ofOption x) (.real y) = some true ↔ ∃ z ∈ x, realLe z y = true := by
  cases x <;> simp [Column.ofOption, le]

end Datum
end Choropleth
