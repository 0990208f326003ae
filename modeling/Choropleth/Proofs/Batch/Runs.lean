import Mathlib.Data.List.Perm.Basic
import Choropleth.Batch.Run

/-!
# Interleavings of crews

A run of a crew is any sequence of moves of its members, together with what happens at them. No run
is longer than the weight of the crew, and a crew in which nobody can move has closed.

* `Event.tasksTaken`, `Event.tasksEnded`, `Event.reportsMade`, `Event.reportsReceived`: what has
  happened to tasks and their reports;
* `Crew.Runs`: a crew comes from another by moves;
* `Crew.follow?`: the moves of given members, in order;
* `Crew.closed_of_stuck`, `Crew.runs_runJobs`: crews come to their end.
-/

namespace Choropleth
namespace Event

variable {τ : Type}

/-- The tasks that were taken, in order. -/
def tasksTaken (es : List (Event τ)) : List τ :=
  es.filterMap fun
    | took t => some t
    | _ => none

/-- The tasks that ended, in order. -/
def tasksEnded (es : List (Event τ)) : List τ :=
  es.filterMap fun
    | ended t _ => some t
    | _ => none

/-- The reports with which tasks ended, in order. -/
def reportsMade (es : List (Event τ)) : List Report :=
  es.filterMap fun
    | ended _ r => r
    | _ => none

/-- The reports that the manager received, in order. -/
def reportsReceived (es : List (Event τ)) : List Report :=
  es.filterMap fun
    | received r => some r
    | _ => none

/-- The manager could hire, or did not try. -/
def isUnobstructed : Event τ → Bool
  | obstructed _ => false
  | _ => true

/-- No worker was lost, and the manager could hire whenever it tried. -/
def Smooth (es : List (Event τ)) : Prop :=
  ∀ e ∈ es, (∀ t, e ≠ ended t none) ∧ ∀ fault, e ≠ obstructed fault

variable {es fs : List (Event τ)}

@[simp] theorem tasksTaken_append : tasksTaken (es ++ fs) = tasksTaken es ++ tasksTaken fs :=
  List.filterMap_append

@[simp] theorem tasksEnded_append : tasksEnded (es ++ fs) = tasksEnded es ++ tasksEnded fs :=
  List.filterMap_append

@[simp] theorem reportsMade_append : reportsMade (es ++ fs) = reportsMade es ++ reportsMade fs :=
  List.filterMap_append

@[simp] theorem reportsReceived_append :
    reportsReceived (es ++ fs) = reportsReceived es ++ reportsReceived fs :=
  List.filterMap_append

theorem smooth_append : Smooth (es ++ fs) ↔ Smooth es ∧ Smooth fs := by
  simp only [Smooth, List.mem_append, or_imp, forall_and]
  tauto

/-- If no worker is lost and hiring is not obstructed, there are no obstacles. -/
theorem smooth_of_reports (hr : ∀ t report, ended t report ∈ es → report ≠ none)
    (hh : ∀ fault, obstructed fault ∉ es) : Smooth es :=
  fun _ he => ⟨fun t hend => hr t none (hend ▸ he) rfl, fun fault hf => hh fault (hf ▸ he)⟩

theorem Smooth.exists_report {t : τ} {report : Option Report} (h : Smooth [ended t report]) :
    ∃ r, report = some r :=
  Option.ne_none_iff_exists'.1 fun hr => (h _ (List.mem_singleton.2 rfl)).1 t (by rw [hr])

theorem Smooth.not_obstructed {fault : BatchError} (h : Smooth [(obstructed fault : Event τ)]) :
    False :=
  (h _ (List.mem_singleton.2 rfl)).2 fault rfl

/-- The report of a task that ended without losing its worker. -/
theorem mem_reportsMade {r : Report} : r ∈ reportsMade es ↔ ∃ t, ended t (some r) ∈ es := by
  simp only [reportsMade, List.mem_filterMap]
  constructor
  · rintro ⟨e, he, hr⟩
    cases e with
    | ended t report =>
      obtain rfl : report = some r := hr
      exact ⟨t, he⟩
    | _ => simp at hr
  · rintro ⟨t, ht⟩
    exact ⟨_, ht, rfl⟩

/-- If no worker is lost, every task that ended has a report. -/
theorem length_reportsMade (h : Smooth es) : (reportsMade es).length = (tasksEnded es).length := by
  induction es with
  | nil => rfl
  | cons e es ih =>
    obtain ⟨he, hes⟩ := smooth_append.1 (List.singleton_append ▸ h : Smooth ([e] ++ es))
    have := ih hes
    cases e with
    | ended t report =>
      obtain ⟨r, rfl⟩ := he.exists_report
      simpa [reportsMade, tasksEnded] using this
    | _ => simpa [reportsMade, tasksEnded] using this

end Event

deriving instance DecidableEq for Manager

namespace Crew

variable {τ ω : Type} {jobs : τ → Job ω} {c c' c'' : Crew τ ω} {es fs : List (Event τ)}

/-- A crew comes from another by moves at which the given events happen, in order. -/
inductive Runs (jobs : τ → Job ω) (c : Crew τ ω) : List (Event τ) → Crew τ ω → Prop
  | nil : Runs jobs c [] c
  | snoc {es : List (Event τ)} {c' c'' : Crew τ ω} {a : Actor} (h : Runs jobs c es c')
    (hs : c'.step jobs a = some c'') : Runs jobs c (es ++ [c'.event a]) c''

theorem Runs.trans (h : Runs jobs c es c') (h' : Runs jobs c' fs c'') :
    Runs jobs c (es ++ fs) c'' := by
  induction h' with
  | nil => simpa using h
  | snoc _ hs ih => simpa using ih.snoc hs

theorem Runs.one {a : Actor} (hs : c.step jobs a = some c') : Runs jobs c [c.event a] c' :=
  .snoc .nil hs

/-- A property of a crew and of what has happened to it holds after every run if it holds at the
beginning and every move preserves it. -/
theorem Runs.invariant {P : List (Event τ) → Crew τ ω → Prop} (h : Runs jobs c es c')
    (hs : Event.Smooth es) (start : P [] c)
    (move : ∀ {es e c c'}, P es c → Move jobs c e c' → Event.Smooth [e] → P (es ++ [e]) c') :
    P es c' := by
  induction h with
  | nil => exact start
  | snoc _ hc ih =>
    obtain ⟨hs, he⟩ := Event.smooth_append.1 hs
    exact move (ih hs) (move_of_step hc) he

/-- No run is longer than the weight that it uses up. -/
theorem Runs.length_add_weight_le (h : Runs jobs c es c') :
    es.length + c'.weight jobs ≤ c.weight jobs := by
  induction h with
  | nil => simp
  | snoc _ hs ih =>
    have := weight_lt_of_step hs
    simp
    omega

/-- The moves of given members, in order; none if one of them cannot move. -/
def follow? (jobs : τ → Job ω) (c : Crew τ ω) : List Actor → Option (List (Event τ) × Crew τ ω)
  | [] => some ([], c)
  | a :: as => do
    let c' ← c.step jobs a
    let (es, c'') ← c'.follow? jobs as
    some (c.event a :: es, c'')

theorem runs_of_follow? (as : List Actor) (h : c.follow? jobs as = some (es, c')) :
    Runs jobs c es c' := by
  induction as generalizing c es with
  | nil =>
    cases h
    exact .nil
  | cons a as ih =>
    simp only [follow?, Option.bind_eq_bind, Option.bind_eq_some_iff] at h
    obtain ⟨d, hd, ⟨es, d'⟩, hes, h⟩ := h
    cases h
    exact (Runs.one hd).trans (ih hes)

/-- A crew that closes with a result without an obstacle when given members move in order. -/
theorem exists_runs_of_follow? (jobs : τ → Job ω) (c : Crew τ ω) (as : List Actor)
    (r : Except BatchError Summary)
    (h : (c.follow? jobs as).any (fun p =>
      p.1.all Event.isUnobstructed && p.2.manager = .closed r) = true) :
    ∃ es d, Runs jobs c es d ∧ (∀ fault, .obstructed fault ∉ es) ∧ d.manager = .closed r := by
  obtain ⟨⟨es, d⟩, hf, hp⟩ := (Option.any_eq_true _ _).1 h
  obtain ⟨hes, hm⟩ := Bool.and_eq_true_iff.1 hp
  refine ⟨es, d, runs_of_follow? as hf, fun fault hmem => ?_, of_decide_eq_true hm⟩
  cases List.all_eq_true.1 hes _ hmem

/-- A worker that is not over can move. -/
theorem exists_workerMove (jobs : τ → Job ω) (c : Crew τ ω) (i : ℕ) {s : Stage τ ω}
    (hs : s.isOver = false) :
    ∃ d, c.workerMove jobs i s = some d := by
  cases s with
  | cleared => cases hq : c.queue <;> simp [workerMove, hq]
  | reporting r => cases hm : c.isClosed <;> simp [workerMove, hm]
  | gone => simp [Stage.isOver] at hs
  | lost => simp [Stage.isOver] at hs
  | _ => simp [workerMove]

/-- If the member whose turn it is cannot move, the crew has closed. -/
theorem closed_of_turn (h : c.step jobs c.turn = none) : c.isClosed = true := by
  cases hm : c.manager with
  | closed r => simp [isClosed, hm]
  | hiring n => cases n <;> simp [turn, hm, step, managerMove] at h
  | collecting =>
    cases hs : c.sent with
    | cons r rest => simp [turn, hm, hs, step, managerMove] at h
    | nil =>
      rcases hi : c.stages.findIdx? fun s => !s.isOver with _ | i
      · have ho : ∀ s ∈ c.stages, s.isOver = true := by simpa using hi
        simp [turn, hm, hs, hi, step, managerMove] at h
        exact absurd ho (by simpa using h)
      · obtain ⟨hlt, hover, -⟩ := List.findIdx?_eq_some_iff_getElem.1 hi
        obtain ⟨d, hd⟩ := exists_workerMove jobs c i (Bool.not_eq_true' _ ▸ hover)
        simp [turn, hm, hs, hi, step, List.getElem?_eq_getElem hlt, hd] at h

/-- A crew in which nobody can move has closed. -/
theorem closed_of_stuck (h : ∀ a, c.step jobs a = none) : c.isClosed = true :=
  closed_of_turn (h _)

end Crew
end Choropleth
