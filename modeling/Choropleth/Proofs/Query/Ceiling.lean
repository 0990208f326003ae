import Mathlib.Data.List.Basic
import Mathlib.Order.Basic
import Choropleth.Intake

/-!
# Taking in streams under a ceiling

A stream, divided or not, is taken in from the front. It ends with the first item that fails, unless
more items come than the ceiling allows before that one has been looked at, and nothing is pulled
after the item that ends it.

* `takeIn_exceeded`, `takeIn_failed`, `takeIn_complete`: how taking in ends;
* `dividedBy`, `Fails`: a stream that may be divided, and the items of it that fail;
* `FailsFirst`: the first item that fails;
* `ObeysCeiling`: how a stream is taken in under a ceiling;
* `obeysCeiling_takeIn`: every stream is taken in so.
-/

namespace Choropleth

variable {α : Type} {add : α → Observation → α} {built : α} {ceiling : ℕ}

/-! ### Observations in front of a stream -/

/-- Observations that the ceiling allows are taken in one after another. -/
theorem takeInFrom_append {seen : ℕ} {os : List Observation}
    (h : ceiling = 0 ∨ seen + os.length ≤ ceiling) (rest : Stream) :
    takeInFrom ceiling add seen built (os.map Except.ok ++ rest) =
      takeInFrom ceiling add (seen + os.length) (os.foldl add built) rest := by
  induction os generalizing seen built with
  | nil => rfl
  | cons o os ih =>
    rw [List.length_cons] at h
    rw [List.map_cons, List.cons_append, takeInFrom, if_neg (by omega), ih (by omega),
      List.foldl_cons, List.length_cons, Nat.add_right_comm, Nat.add_assoc]

theorem takeIn_append {os : List Observation} (h : ceiling = 0 ∨ os.length ≤ ceiling)
    (rest : Stream) : takeIn ceiling add built (os.map Except.ok ++ rest) =
      takeInFrom ceiling add os.length (os.foldl add built) rest := by
  rw [takeIn, takeInFrom_append (by omega), Nat.zero_add]

/-- One item more than the ceiling allows ends the stream, whatever it is. -/
theorem takeIn_exceeded {os : List Observation} (h : 0 < os.length)
    (item : Except QueryError Observation) (rest : Stream) :
    takeIn os.length add built (os.map Except.ok ++ item :: rest) =
      ⟨os.foldl add built, some (.tooLarge os.length), os.length + 1⟩ := by
  rw [takeIn_append (.inr (Nat.le_refl _))]
  cases item <;> rw [takeInFrom, if_pos ⟨h, Nat.le_refl _⟩]

/-- An error ends the stream if the ceiling allows one item more. -/
theorem takeIn_failed {os : List Observation} (h : ¬(0 < ceiling ∧ ceiling ≤ os.length))
    (e : QueryError) (rest : Stream) :
    takeIn ceiling add built (os.map Except.ok ++ .error e :: rest) =
      ⟨os.foldl add built, some e, os.length + 1⟩ := by
  rw [takeIn_append (by omega), takeInFrom, if_neg h]

/-- Observations that the ceiling allows are taken in whole. -/
theorem takeIn_complete {os : List Observation} (h : ¬(0 < ceiling ∧ ceiling < os.length)) :
    takeIn ceiling add built (os.map Except.ok) = ⟨os.foldl add built, none, os.length⟩ := by
  have happend : takeIn ceiling add built (os.map Except.ok ++ []) =
      ⟨os.foldl add built, none, os.length⟩ := takeIn_append (by omega) []
  rwa [List.append_nil] at happend

/-! ### Divided streams -/

/-- The stream, divided by denominators if there are any. They come with the label of the area types
in errors. -/
def dividedBy (w : Option (Ledger × String)) (s : Stream) : Stream :=
  match w with
  | none => s
  | some (denominators, label) => divided denominators label s

/-- An item fails: it is an error, or its area has no denominator or a zero one. -/
inductive Fails : Option (Ledger × String) → Except QueryError Observation → QueryError → Prop
  | fault {w : Option (Ledger × String)} (e : QueryError) : Fails w (.error e) e
  | noDenominator {denominators : Ledger} {label : String} {o : Observation} :
    denominators.get? o.area = none →
      Fails (some (denominators, label)) (.ok o) (.partialContent label o.category (some o.area))
  | zeroDenominator {denominators : Ledger} {label : String} {o : Observation} {y : Float} :
    denominators.get? o.area = some y → (y == 0) = true →
      Fails (some (denominators, label)) (.ok o) (.zeroDenominator label o.category o.area)

/-- The observation with its value divided by that of its area. -/
def quotient (w : Option (Ledger × String)) (o : Observation) : Observation :=
  match w with
  | none => o
  | some (denominators, _) => { o with value := o.value / (denominators.get? o.area).getD 1 }

variable {w : Option (Ledger × String)}

theorem dividedBy_append (s s' : Stream) :
    dividedBy w (s ++ s') = dividedBy w s ++ dividedBy w s' := by
  cases w with
  | none => rfl
  | some w => exact List.map_append

theorem length_dividedBy (s : Stream) : (dividedBy w s).length = s.length := by
  cases w with
  | none => rfl
  | some w => exact List.length_map _

/-- An item that fails becomes an error. -/
theorem Fails.dividedBy_eq {item : Except QueryError Observation} {e : QueryError}
    (h : Fails w item e) : dividedBy w [item] = [.error e] := by
  cases h with
  | fault e => cases w <;> rfl
  | noDenominator hnone => simp [dividedBy, divided, divide, hnone]
  | zeroDenominator hsome hzero => simp [dividedBy, divided, divide, hsome, hzero]

/-- Where all denominators are there and none is zero, every observation is divided. -/
theorem divided_ok {denominators : Ledger} (label : String) {os : List Observation}
    (h : ∀ o ∈ os, ∃ y, denominators.get? o.area = some y ∧ (y == 0) = false) :
    divided denominators label (os.map Except.ok) =
      (os.map fun o => { o with value := o.value / (denominators.get? o.area).getD 1 }).map
        Except.ok := by
  rw [divided, List.map_map, List.map_map]
  refine List.map_congr_left fun o ho => ?_
  obtain ⟨y, hy, hzero⟩ := h o ho
  simp [divide, hy, hzero]

/-- An observation that does not fail has a denominator other than zero. -/
theorem exists_denominator {denominators : Ledger} {label : String} {o : Observation}
    (h : ∀ e, ¬Fails (some (denominators, label)) (.ok o) e) :
    ∃ y, denominators.get? o.area = some y ∧ (y == 0) = false := by
  cases hy : denominators.get? o.area with
  | none => exact absurd (.noDenominator hy) (h _)
  | some y =>
    refine ⟨y, rfl, Bool.eq_false_iff.2 fun hzero => ?_⟩
    exact h _ (.zeroDenominator hy hzero)

/-- Observations that do not fail are divided. -/
theorem dividedBy_ok {os : List Observation} (h : ∀ o ∈ os, ∀ e, ¬Fails w (.ok o) e) :
    dividedBy w (os.map Except.ok) = (os.map (quotient w)).map Except.ok := by
  cases w with
  | none => rw [dividedBy, show quotient none = id from rfl, List.map_id]
  | some w => exact divided_ok w.2 fun o ho => exists_denominator (h o ho)

/-! ### The first item that fails -/

/-- The item at a position fails, and none before it. -/
structure FailsFirst (w : Option (Ledger × String)) (s : Stream) (p : ℕ) (e : QueryError) :
    Prop where
  fails : ∃ item, s[p]? = some item ∧ Fails w item e
  before : ∀ q < p, ∀ item, s[q]? = some item → ∀ e', ¬Fails w item e'

variable {s : Stream} {p : ℕ}

/-- If an item fails, one is the first to fail. -/
theorem exists_failsFirst {q : ℕ} {item : Except QueryError Observation} {e : QueryError}
    (hq : s[q]? = some item) (h : Fails w item e) : ∃ p ≤ q, ∃ e, FailsFirst w s p e := by
  induction q using Nat.strongRecOn generalizing item e with
  | ind q ih =>
  by_cases hbefore : ∃ r < q, ∃ item, s[r]? = some item ∧ ∃ e, Fails w item e
  · obtain ⟨r, hr, item, hitem, e, he⟩ := hbefore
    obtain ⟨p, hp, hfirst⟩ := ih r hr hitem he
    exact ⟨p, Nat.le_trans hp (Nat.le_of_lt hr), hfirst⟩
  · refine ⟨q, Nat.le_refl q, e, ⟨item, hq, h⟩, ?_⟩
    intro r hr item hitem e he
    exact hbefore ⟨r, hr, item, hitem, e, he⟩

/-- A stream none of whose items fails holds observations only. -/
theorem exists_observations {s : Stream} (h : ∀ item ∈ s, ∀ e, ¬Fails w item e) :
    ∃ os : List Observation, s = os.map Except.ok ∧ ∀ o ∈ os, ∀ e, ¬Fails w (.ok o) e := by
  induction s with
  | nil => exact ⟨[], rfl, nofun⟩
  | cons item s ih =>
    obtain ⟨hitem, hs⟩ := List.forall_mem_cons.1 h
    obtain ⟨os, rfl, hos⟩ := ih hs
    cases item with
    | error e => exact absurd (.fault e) (hitem e)
    | ok o => exact ⟨o :: os, rfl, List.forall_mem_cons.2 ⟨hitem, hos⟩⟩

/-- The items before the first one that fails are observations. -/
theorem exists_take_eq (hp : p ≤ s.length)
    (h : ∀ q < p, ∀ item, s[q]? = some item → ∀ e, ¬Fails w item e) :
    ∃ os : List Observation, os.length = p ∧ s.take p = os.map Except.ok ∧
      ∀ o ∈ os, ∀ e, ¬Fails w (.ok o) e := by
  have htake : ∀ item ∈ s.take p, ∀ e, ¬Fails w item e := by
    intro item hitem
    obtain ⟨q, hq, rfl⟩ := List.getElem_of_mem hitem
    rw [List.length_take] at hq
    apply h q (by omega)
    rw [List.getElem_take, List.getElem?_eq_getElem (by omega)]
  obtain ⟨os, hos, hfine⟩ := exists_observations htake
  refine ⟨os, ?_, hos, hfine⟩
  have hlength := congrArg List.length hos
  rwa [List.length_take, List.length_map, Nat.min_eq_left hp, eq_comm] at hlength

/-- The items up to a position, if those before it do not fail, and whatever follows. -/
theorem exists_dividedBy_take {item : Except QueryError Observation} (hitem : s[p]? = some item)
    (h : ∀ q < p, ∀ item, s[q]? = some item → ∀ e, ¬Fails w item e) :
    ∃ os : List Observation, os.length = p ∧ ∀ rest, dividedBy w (s.take (p + 1) ++ rest) =
      os.map Except.ok ++ (dividedBy w [item] ++ dividedBy w rest) := by
  have hp := (List.getElem?_eq_some_iff.1 hitem).1
  obtain ⟨os, hlength, htake, hos⟩ := exists_take_eq (Nat.le_of_lt hp) h
  refine ⟨os.map (quotient w), by rw [List.length_map, hlength], fun rest => ?_⟩
  rw [List.take_add_one, hitem, htake, List.append_assoc, dividedBy_append, dividedBy_ok hos,
    dividedBy_append]
  rfl

/-! ### Streams under a ceiling -/

/-- How a stream is taken in under a ceiling, where zero stands for no ceiling. `Good` is what is
known of the result if all observations have been taken in. -/
structure ObeysCeiling (ceiling : ℕ) (w : Option (Ledger × String)) (take : Stream → Intake α)
    (s : Stream) (Good : List Observation → α → Prop) : Prop where
  /-- Too many items come before one fails, or with it. -/
  exceeded : 0 < ceiling → ceiling < s.length → (∀ p e, FailsFirst w s p e → ceiling ≤ p) →
    (take s).result = .error (.tooLarge ceiling) ∧ (take s).pulled = ceiling + 1
  /-- An item fails that the ceiling allows. -/
  failed : ∀ p e, FailsFirst w s p e → ¬(0 < ceiling ∧ ceiling < s.length ∧ ceiling ≤ p) →
    (take s).result = .error e ∧ (take s).pulled = p + 1
  /-- All items are observations that do not fail, and no more than the ceiling allows. -/
  complete : (∀ p e, ¬FailsFirst w s p e) → ¬(0 < ceiling ∧ ceiling < s.length) →
    ∃ os x, s = os.map Except.ok ∧ (take s).result = .ok x ∧ (take s).pulled = s.length ∧
      Good os x
  /-- What comes after the items that were pulled does not matter. -/
  lazy : ∀ e, (take s).result = .error e → ∀ rest,
    take (s.take (take s).pulled ++ rest) = take s

theorem ObeysCeiling.mono {take : Stream → Intake α} {Good Good' : List Observation → α → Prop}
    (h : ObeysCeiling ceiling w take s Good)
    (hgood : ∀ os x, (∀ o ∈ os, ∀ e, ¬Fails w (.ok o) e) → Good os x → Good' os x) :
    ObeysCeiling ceiling w take s Good' where
  exceeded := h.exceeded
  failed := h.failed
  complete hnone hceiling := by
    obtain ⟨os, x, hs, hresult, hpulled, hx⟩ := h.complete hnone hceiling
    refine ⟨os, x, hs, hresult, hpulled, hgood os x ?_ hx⟩
    intro o ho e he
    obtain ⟨q, hq⟩ := List.mem_iff_getElem?.1 (List.mem_map_of_mem (f := Except.ok) ho)
    obtain ⟨p, -, e, hfirst⟩ := exists_failsFirst (hs ▸ hq) he
    exact hnone p e hfirst
  lazy := h.lazy

/-- The item that exceeds the ceiling ends the stream, whatever follows. -/
theorem exists_takeIn_exceeded (add : α → Observation → α) (built : α) (hpos : 0 < ceiling)
    (hlt : ceiling < s.length) (h : ∀ p e, FailsFirst w s p e → ceiling ≤ p) : ∃ x, ∀ rest,
      takeIn ceiling add built (dividedBy w (s.take (ceiling + 1) ++ rest)) =
        ⟨x, some (.tooLarge ceiling), ceiling + 1⟩ := by
  have hbefore : ∀ q < ceiling, ∀ item, s[q]? = some item → ∀ e, ¬Fails w item e := by
    intro q hq item hitem e he
    obtain ⟨p, hp, e, hfirst⟩ := exists_failsFirst hitem he
    exact absurd (h p e hfirst) (by omega)
  obtain ⟨os, rfl, hos⟩ := exists_dividedBy_take (List.getElem?_eq_getElem hlt) hbefore
  obtain ⟨item, hitem⟩ := List.length_eq_one_iff.1 (length_dividedBy (w := w) [s[os.length]])
  refine ⟨os.foldl add built, fun rest => ?_⟩
  rw [hos, hitem]
  exact takeIn_exceeded hpos item _

/-- The first item that fails ends the stream if the ceiling allows it, whatever follows. -/
theorem exists_takeIn_failed (add : α → Observation → α) (built : α) {e : QueryError}
    (h : FailsFirst w s p e) (hceiling : ¬(0 < ceiling ∧ ceiling < s.length ∧ ceiling ≤ p)) :
    ∃ x, ∀ rest, takeIn ceiling add built (dividedBy w (s.take (p + 1) ++ rest)) =
      ⟨x, some e, p + 1⟩ := by
  obtain ⟨item, hitem, hfails⟩ := h.fails
  have hp := (List.getElem?_eq_some_iff.1 hitem).1
  obtain ⟨os, rfl, hos⟩ := exists_dividedBy_take hitem h.before
  refine ⟨os.foldl add built, fun rest => ?_⟩
  rw [hos, hfails.dividedBy_eq]
  exact takeIn_failed (by omega) e _

/-- A stream none of whose items fails is taken in whole if the ceiling allows it. -/
theorem exists_takeIn_complete (add : α → Observation → α) (built : α)
    (h : ∀ p e, ¬FailsFirst w s p e) (hceiling : ¬(0 < ceiling ∧ ceiling < s.length)) :
    ∃ os : List Observation, s = os.map Except.ok ∧
      takeIn ceiling add built (dividedBy w s) =
        ⟨(os.map (quotient w)).foldl add built, none, s.length⟩ := by
  have hfine : ∀ item ∈ s, ∀ e, ¬Fails w item e := by
    intro item hitem e he
    obtain ⟨q, hq⟩ := List.mem_iff_getElem?.1 hitem
    obtain ⟨p, -, e, hfirst⟩ := exists_failsFirst hq he
    exact h p e hfirst
  obtain ⟨os, rfl, hos⟩ := exists_observations hfine
  rw [List.length_map] at hceiling
  refine ⟨os, rfl, ?_⟩
  rw [dividedBy_ok hos, takeIn_complete (by rwa [List.length_map]), List.length_map,
    List.length_map]

/-- Either the ceiling is exceeded, or an item fails that it allows, or neither is the case. -/
theorem ceiling_cases (ceiling : ℕ) (w : Option (Ledger × String)) (s : Stream) :
    (0 < ceiling ∧ ceiling < s.length ∧ ∀ p e, FailsFirst w s p e → ceiling ≤ p) ∨
    (∃ p e, FailsFirst w s p e ∧ ¬(0 < ceiling ∧ ceiling < s.length ∧ ceiling ≤ p)) ∨
    (∀ p e, ¬FailsFirst w s p e) ∧ ¬(0 < ceiling ∧ ceiling < s.length) := by
  by_cases hfails : ∃ p e, FailsFirst w s p e ∧ ¬(0 < ceiling ∧ ceiling < s.length ∧ ceiling ≤ p)
  · exact .inr (.inl hfails)
  by_cases hlt : 0 < ceiling ∧ ceiling < s.length
  · refine .inl ⟨hlt.1, hlt.2, ?_⟩
    intro p e h
    by_contra hp
    exact hfails ⟨p, e, h, fun hceiling => hp hceiling.2.2⟩
  · refine .inr (.inr ⟨?_, hlt⟩)
    intro p e h
    exact hfails ⟨p, e, h, fun hceiling => hlt ⟨hceiling.1, hceiling.2.1⟩⟩

/-- If the items that were pulled decide, the whole stream ends as they do. -/
theorem takeIn_eq_of_take {add : α → Observation → α} {n : ℕ} {t : Intake α}
    (h : ∀ rest, takeIn ceiling add built (dividedBy w (s.take n ++ rest)) = t) :
    takeIn ceiling add built (dividedBy w s) = t := by
  rw [← h (s.drop n), List.take_append_drop]

/-- **Every stream is taken in under its ceiling.** -/
theorem obeysCeiling_takeIn (ceiling : ℕ) (add : α → Observation → α) (built : α)
    (w : Option (Ledger × String)) (s : Stream) :
    ObeysCeiling ceiling w (fun s => takeIn ceiling add built (dividedBy w s)) s
      fun os x => x = (os.map (quotient w)).foldl add built where
  exceeded hpos hlt h := by
    obtain ⟨x, hx⟩ := exists_takeIn_exceeded add built hpos hlt h
    rw [takeIn_eq_of_take hx]
    exact ⟨rfl, rfl⟩
  failed p e h hceiling := by
    obtain ⟨x, hx⟩ := exists_takeIn_failed add built h hceiling
    rw [takeIn_eq_of_take hx]
    exact ⟨rfl, rfl⟩
  complete h hceiling := by
    obtain ⟨os, hs, htake⟩ := exists_takeIn_complete add built h hceiling
    rw [htake]
    exact ⟨os, _, hs, rfl, rfl, rfl⟩
  lazy e he rest := by
    rcases ceiling_cases ceiling w s with ⟨hpos, hlt, h⟩ | ⟨p, e', h, hceiling⟩ | ⟨h, hceiling⟩
    · obtain ⟨x, hx⟩ := exists_takeIn_exceeded add built hpos hlt h
      rw [takeIn_eq_of_take hx]
      exact hx rest
    · obtain ⟨x, hx⟩ := exists_takeIn_failed add built h hceiling
      rw [takeIn_eq_of_take hx]
      exact hx rest
    · obtain ⟨os, hs, htake⟩ := exists_takeIn_complete add built h hceiling
      rw [htake] at he
      cases he

end Choropleth
