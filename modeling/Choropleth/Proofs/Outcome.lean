import Mathlib.Data.List.Forall2

/-!
# How readings end

Readers fail with the first error they meet. A reading that succeeds went through all its steps, and
two readings whose steps end alike end alike.

* `Outcome.bind_eq_ok`, `Outcome.map_eq_ok`, `Outcome.guard_eq_ok`, `Outcome.check_eq_ok`: one step
  that succeeds;
* `Outcome.mapM_eq_ok`: a list that is read entry by entry;
* `Outcome.Alike`: both readings succeed or both fail, with related results;
* `Outcome.OkIff`: a reading succeeds just under some condition.
-/

namespace Choropleth
namespace Outcome

variable {ε α β : Type}

/-- Two readings in a row succeed if the first does and the second does with its result. -/
@[simp] theorem bind_eq_ok {x : Except ε α} {f : α → Except ε β} {b : β} :
    (x >>= f) = .ok b ↔ ∃ a, x = .ok a ∧ f a = .ok b := by
  cases x <;> simp [bind, Except.bind]

@[simp] theorem map_eq_ok {x : Except ε α} {f : α → β} {b : β} :
    x.map f = .ok b ↔ ∃ a, x = .ok a ∧ f a = b := by
  cases x <;> simp [Except.map]

@[simp] theorem pure_eq_ok {a b : α} : (pure a : Except ε α) = .ok b ↔ a = b := by
  simp [pure, Except.pure]

/-- A reading with a check in front of it succeeds if the check does not object. -/
@[simp] theorem guard_eq_ok {p : Prop} [Decidable p] {e : ε} {x : Except ε α} {a : α} :
    (if p then .error e else x) = .ok a ↔ ¬p ∧ x = .ok a := by
  by_cases hp : p <;> simp [hp]

/-- The same for a check that throws in front of further steps. -/
@[simp] theorem throw_eq_ok {p : Prop} [Decidable p] {e : ε} {f : α → Except ε β} {x : Except ε β}
    {b : β} : (if p then throw e >>= f else x) = .ok b ↔ ¬p ∧ x = .ok b :=
  guard_eq_ok

/-- A reading of a single check succeeds if the check passes. -/
@[simp] theorem check_eq_ok {p : Prop} [Decidable p] {e : ε} {a b : α} :
    (if p then .ok b else .error e : Except ε α) = .ok a ↔ p ∧ b = a := by
  by_cases hp : p <;> simp [hp]

/-- A list is read if all its entries are, in order. -/
theorem mapM_eq_ok {f : α → Except ε β} {as : List α} {bs : List β} :
    as.mapM f = .ok bs ↔ List.Forall₂ (fun a b => f a = .ok b) as bs := by
  induction as generalizing bs with
  | nil => rw [List.mapM_nil, pure_eq_ok, List.forall₂_nil_left_iff, eq_comm]
  | cons a as ih =>
    simp only [List.mapM_cons, bind_eq_ok, pure_eq_ok, List.forall₂_cons_left_iff, ih]
    constructor
    · rintro ⟨b, hb, cs, hcs, rfl⟩
      exact ⟨b, cs, hb, hcs, rfl⟩
    · rintro ⟨b, cs, hb, hcs, rfl⟩
      exact ⟨b, hb, cs, hcs, rfl⟩

theorem exists_of_mem_right {R : α → β → Prop} {as : List α} {bs : List β}
    (h : List.Forall₂ R as bs) {b : β} (hb : b ∈ bs) : ∃ a ∈ as, R a b := by
  induction h with
  | nil => cases hb
  | @cons a c as bs hac _ ih =>
    rcases List.mem_cons.1 hb with rfl | hb
    · exact ⟨a, List.mem_cons_self, hac⟩
    · obtain ⟨d, hd, hdb⟩ := ih hb
      exact ⟨d, List.mem_cons_of_mem a hd, hdb⟩

theorem exists_of_mem_left {R : α → β → Prop} {as : List α} {bs : List β}
    (h : List.Forall₂ R as bs) {a : α} (ha : a ∈ as) : ∃ b ∈ bs, R a b :=
  exists_of_mem_right h.flip ha

/-! ### Readings that end alike -/

/-- Both readings succeed, with related results, or both fail, with related errors. -/
inductive Alike (E : ε → ε → Prop) (R : α → β → Prop) : Except ε α → Except ε β → Prop
  | ok {a : α} {b : β} (h : R a b) : Alike E R (.ok a) (.ok b)
  | error {e f : ε} (h : E e f) : Alike E R (.error e) (.error f)

namespace Alike

variable {γ δ : Type} {E : ε → ε → Prop} {R : α → β → Prop} {S : γ → δ → Prop}

theorem exists_eq {x : Except ε α} {y : Except ε β} (h : Alike E R x y) :
    (∃ a b, x = .ok a ∧ y = .ok b ∧ R a b) ∨ ∃ e f, x = .error e ∧ y = .error f ∧ E e f := by
  cases h with
  | ok h => exact .inl ⟨_, _, rfl, rfl, h⟩
  | error h => exact .inr ⟨_, _, rfl, rfl, h⟩

theorem bind {x : Except ε α} {y : Except ε β} {f : α → Except ε γ} {g : β → Except ε δ}
    (h : Alike E R x y) (hfg : ∀ a b, R a b → Alike E S (f a) (g b)) :
    Alike E S (x >>= f) (y >>= g) := by
  cases h with
  | ok h => exact hfg _ _ h
  | error h => exact .error h

theorem map {x : Except ε α} {y : Except ε β} {f : α → γ} {g : β → δ} (h : Alike E R x y)
    (hfg : ∀ a b, R a b → S (f a) (g b)) : Alike E S (x.map f) (y.map g) := by
  cases h with
  | ok h => exact .ok (hfg _ _ h)
  | error h => exact .error h

theorem refl (hE : ∀ e, E e e) {R : α → α → Prop} (hR : ∀ a, R a a) (x : Except ε α) :
    Alike E R x x := by
  cases x with
  | ok a => exact .ok (hR a)
  | error e => exact .error (hE e)

theorem eq {x y : Except ε α} (h : Alike (· = ·) (· = ·) x y) : x = y := by
  cases h with
  | ok h => rw [h]
  | error h => rw [h]

theorem mono {F : ε → ε → Prop} {T : α → β → Prop} {x : Except ε α} {y : Except ε β}
    (h : Alike E R x y) (hEF : ∀ e f, E e f → F e f) (hRT : ∀ a b, R a b → T a b) :
    Alike F T x y := by
  cases h with
  | ok h => exact .ok (hRT _ _ h)
  | error h => exact .error (hEF _ _ h)

theorem guard {p q : Prop} [Decidable p] [Decidable q] {e f : ε} {x : Except ε α} {y : Except ε β}
    (hpq : p ↔ q) (he : E e f) (h : ¬p → Alike E R x y) :
    Alike E R (if p then .error e else x) (if q then .error f else y) := by
  by_cases hp : p
  · rw [if_pos hp, if_pos (hpq.1 hp)]
    exact .error he
  · rw [if_neg hp, if_neg (mt hpq.2 hp)]
    exact h hp

end Alike

/-! ### When readings succeed -/

/-- The reading succeeds just if the condition holds, and then its result is as described. -/
def OkIff (p : Prop) (A : α → Prop) (x : Except ε α) : Prop :=
  (p ∧ ∃ a, x = .ok a ∧ A a) ∨ (¬p ∧ ∃ e, x = .error e)

theorem OkIff.congr {p q : Prop} {A B : α → Prop} {x : Except ε α} (h : OkIff p A x) (hpq : p ↔ q)
    (hAB : ∀ a, A a → B a) : OkIff q B x := by
  rcases h with ⟨hp, a, hx, ha⟩ | ⟨hp, e, he⟩
  · exact .inl ⟨hpq.1 hp, a, hx, hAB a ha⟩
  · exact .inr ⟨mt hpq.2 hp, e, he⟩

/-- Readings end alike if they succeed under equivalent conditions. -/
theorem OkIff.alike {p q : Prop} {A : α → Prop} {B : β → Prop} {R : α → β → Prop} {x : Except ε α}
    {y : Except ε β} (hx : OkIff p A x) (hy : OkIff q B y) (hpq : p ↔ q)
    (hR : ∀ a b, A a → B b → R a b) : Alike (fun _ _ => True) R x y := by
  rcases hx with ⟨hp, a, rfl, ha⟩ | ⟨hp, e, rfl⟩ <;> rcases hy with ⟨hq, b, rfl, hb⟩ | ⟨hq, f, rfl⟩
  · exact .ok (hR a b ha hb)
  · exact absurd (hpq.1 hp) hq
  · exact absurd (hpq.2 hq) hp
  · exact .error trivial

end Outcome
end Choropleth
