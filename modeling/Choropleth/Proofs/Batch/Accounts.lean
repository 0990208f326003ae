import Choropleth.Proofs.Batch.Runs

/-!
# What becomes of tasks and reports

At every moment of a run without obstacles, the tasks that were taken are a beginning of the list;
each of them has either ended or is in the hands of one worker; and each report has either been
received, or is on its way, or is still with its worker.

* `Crew.held`, `Crew.unsent`: the tasks and the reports that the workers have;
* `Crew.Accounts`: tasks and reports are accounted for.
-/

namespace Choropleth

open scoped List

/-- One entry of a list is exchanged for another. -/
theorem perm_filterMap_set {α β : Type} {l : List α} {i : ℕ} {a : α} (f : α → Option β) (b : α)
    (h : l[i]? = some a) :
    ((f a).toList ++ (l.set i b).filterMap f).Perm ((f b).toList ++ l.filterMap f) := by
  have cons : ∀ (x : α) (l : List α),
      (x :: l).filterMap f = (f x).toList ++ l.filterMap f := by
    intro x l
    cases hx : f x <;> simp [hx]
  induction l generalizing i with
  | nil => simp at h
  | cons x l ih =>
    cases i with
    | zero =>
      obtain rfl : x = a := by simpa using h
      rw [List.set_cons_zero, cons, cons]
      exact List.perm_append_comm_assoc _ _ _
    | succ i =>
      rw [List.set_cons_succ, cons, cons]
      calc (f a).toList ++ ((f x).toList ++ (l.set i b).filterMap f)
        _ ~ (f x).toList ++ ((f a).toList ++ (l.set i b).filterMap f) :=
          List.perm_append_comm_assoc _ _ _
        _ ~ (f x).toList ++ ((f b).toList ++ l.filterMap f) :=
          (ih (by simpa using h)).append_left _
        _ ~ (f b).toList ++ ((f x).toList ++ l.filterMap f) := List.perm_append_comm_assoc _ _ _

theorem perm_append_of_perm {α : Type} {l₁ l₂ l : List α} (h : (l₁ ++ l₂).Perm l) (m : List α) :
    (l₁ ++ (m ++ l₂)).Perm (l ++ m) :=
  calc l₁ ++ (m ++ l₂)
    _ ~ m ++ (l₁ ++ l₂) := List.perm_append_comm_assoc _ _ _
    _ ~ m ++ l := h.append_left m
    _ ~ l ++ m := List.perm_append_comm

namespace Stage

variable {τ ω : Type}

/-- The task that the worker holds. -/
def task? : Stage τ ω → Option τ
  | holding t _ => some t
  | _ => none

/-- The report that the worker has to send. -/
def report? : Stage τ ω → Option Report
  | stopping e => some (.error e)
  | reporting r => some r
  | _ => none

@[simp] theorem task?_holding (t : τ) (j : Job ω) : (holding t j).task? = some t := rfl

@[simp] theorem report?_holding (t : τ) (j : Job ω) : (holding t j).report? = none := rfl

@[simp] theorem task?_afterStep_report (t : τ) (r : Report) :
    (afterStep t (.inr (some r)) : Stage τ ω).task? = none := by cases r <;> rfl

@[simp] theorem report?_afterStep_report (t : τ) (r : Report) :
    (afterStep t (.inr (some r)) : Stage τ ω).report? = some r := by cases r <;> rfl

end Stage

namespace Crew

variable {τ ω : Type} {jobs : τ → Job ω} {c c' : Crew τ ω} {tasks : List τ}
  {es : List (Event τ)} {e : Event τ}

/-- The tasks in the hands of workers. -/
def held (c : Crew τ ω) : List τ := c.stages.filterMap Stage.task?

/-- The reports that workers have to send. -/
def unsent (c : Crew τ ω) : List Report := c.stages.filterMap Stage.report?

/-- What has happened, and what the crew has, account for every task and every report. -/
structure Accounts (tasks : List τ) (es : List (Event τ)) (c : Crew τ ω) : Prop where
  taken : Event.tasksTaken es ++ c.queue = tasks
  held : (Event.tasksEnded es ++ c.held).Perm (Event.tasksTaken es)
  reported : (Event.reportsReceived es ++ c.sent ++ c.unsent).Perm (Event.reportsMade es)
  summary : c.summary = (Event.reportsReceived es).foldl Summary.tally {}
  failure : c.failure = (Event.reportsReceived es).findSome? failureOf?

theorem accounts_start (tasks : List τ) (workers : ℕ) (world : ω) :
    Accounts tasks [] (start tasks workers world) where
  taken := rfl
  held := .nil
  reported := .nil
  summary := rfl
  failure := rfl

/-- A move at which nothing is received. What is taken leaves the queue, what ends leaves the hands of
its worker, and a report that is made is to be sent. -/
theorem Accounts.shift (h : Accounts tasks es c) (hnone : Event.reportsReceived [e] = [])
    (hsum : c'.summary = c.summary) (hfail : c'.failure = c.failure)
    (hq : Event.tasksTaken [e] ++ c'.queue = c.queue)
    (ht : (Event.tasksEnded [e] ++ c'.held).Perm (Event.tasksTaken [e] ++ c.held))
    (hr : (c'.sent ++ c'.unsent).Perm (Event.reportsMade [e] ++ (c.sent ++ c.unsent))) :
    Accounts tasks (es ++ [e]) c' where
  taken := by rw [Event.tasksTaken_append, List.append_assoc, hq, h.taken]
  held := by
    rw [Event.tasksEnded_append, Event.tasksTaken_append, List.append_assoc]
    exact (ht.append_left _).trans (perm_append_of_perm h.held _)
  reported := by
    have hreported := h.reported
    rw [List.append_assoc] at hreported
    rw [Event.reportsReceived_append, Event.reportsMade_append, hnone, List.append_nil,
      List.append_assoc]
    exact (hr.append_left _).trans (perm_append_of_perm hreported _)
  summary := by rw [Event.reportsReceived_append, hnone, List.append_nil, hsum, h.summary]
  failure := by rw [Event.reportsReceived_append, hnone, List.append_nil, hfail, h.failure]

/-- A move that leaves tasks and reports where they are. -/
theorem Accounts.quiet (h : Accounts tasks es c) (hq : c'.queue = c.queue) (hs : c'.sent = c.sent)
    (hsum : c'.summary = c.summary) (hfail : c'.failure = c.failure) (ht : c'.held.Perm c.held)
    (hr : c'.unsent.Perm c.unsent) : Accounts tasks (es ++ [.other]) c' :=
  h.shift rfl hsum hfail hq ht (hs ▸ hr.append_left _)

/-- A worker exchanges its task for another, or for none. -/
theorem held_withStage_perm {d : Crew τ ω} {i : ℕ} {s : Stage τ ω} (hd : d.stages = c.stages)
    (s' : Stage τ ω) (hi : c.stages[i]? = some s) :
    (s.task?.toList ++ (d.withStage i s').held).Perm (s'.task?.toList ++ c.held) := by
  simpa only [held, withStage_stages, hd] using perm_filterMap_set Stage.task? s' hi

/-- A worker exchanges its report for another, or for none. -/
theorem unsent_withStage_perm {d : Crew τ ω} {i : ℕ} {s : Stage τ ω} (hd : d.stages = c.stages)
    (s' : Stage τ ω) (hi : c.stages[i]? = some s) :
    (s.report?.toList ++ (d.withStage i s').unsent).Perm (s'.report?.toList ++ c.unsent) := by
  simpa only [unsent, withStage_stages, hd] using perm_filterMap_set Stage.report? s' hi

/-- A move of one worker that leaves tasks and reports where they are. -/
theorem Accounts.restage (h : Accounts tasks es c) {d : Crew τ ω} {i : ℕ} {s s' : Stage τ ω}
    (hi : c.stages[i]? = some s) (hst : d.stages = c.stages) (hq : d.queue = c.queue)
    (hs : d.sent = c.sent) (hsum : d.summary = c.summary) (hfail : d.failure = c.failure)
    (ht : s'.task? = s.task?) (hr : s'.report? = s.report?) :
    Accounts tasks (es ++ [.other]) (d.withStage i s') := by
  refine h.quiet hq hs hsum hfail ?_ ?_
  · have := held_withStage_perm hst s' hi
    rwa [ht, List.perm_append_left_iff] at this
  · have := unsent_withStage_perm hst s' hi
    rwa [hr, List.perm_append_left_iff] at this

theorem Accounts.move (h : Accounts tasks es c) (hm : Move jobs c e c') (hs : Event.Smooth [e])
    (hc : c.isClosed = true → ∀ s ∈ c.stages, s.isOver = true) : Accounts tasks (es ++ [e]) c' := by
  cases hm with
  | look hi =>
    refine h.restage hi rfl rfl rfl rfl rfl ?_ ?_
    all_goals split <;> rfl
  | leave hi hq => exact h.restage hi rfl rfl rfl rfl rfl rfl rfl
  | @take i t rest hi hq =>
    have ht : (withStage { c with queue := rest } i (.holding t (jobs t))).held.Perm
        (t :: c.held) := held_withStage_perm rfl _ hi
    have hr : (withStage { c with queue := rest } i (.holding t (jobs t))).unsent.Perm
        c.unsent := unsent_withStage_perm rfl _ hi
    exact h.shift rfl rfl rfl hq.symm ht (hr.append_left _)
  | work hi hn => exact h.restage hi rfl rfl rfl rfl rfl rfl rfl
  | @ends i t job report world hi hn =>
    obtain ⟨r, rfl⟩ := hs.exists_report
    have ht := held_withStage_perm (d := { c with world }) rfl (.afterStep t (.inr (some r))) hi
    have hr := unsent_withStage_perm (d := { c with world }) rfl (.afterStep t (.inr (some r))) hi
    simp only [Stage.task?_holding, Stage.task?_afterStep_report, Stage.report?_holding,
      Stage.report?_afterStep_report, Option.toList_some, Option.toList_none, List.nil_append,
      List.singleton_append] at ht hr
    exact h.shift rfl rfl rfl rfl ht ((hr.append_left _).trans List.perm_middle)
  | stop hi => exact h.restage hi rfl rfl rfl rfl rfl rfl rfl
  | @send i r hi hm =>
    have ht : (withStage { c with sent := c.sent ++ [r] } i .ready).held.Perm c.held :=
      held_withStage_perm rfl _ hi
    have hr : (r :: (withStage { c with sent := c.sent ++ [r] } i .ready).unsent).Perm c.unsent :=
      unsent_withStage_perm rfl _ hi
    refine h.shift rfl rfl rfl rfl ht ?_
    rw [withStage_sent, List.append_assoc]
    exact hr.append_left _
  | giveUp hi hm =>
    have := hc hm _ (List.mem_of_getElem? hi)
    simp [Stage.isOver] at this
  | listen hm => exact h.quiet rfl rfl rfl rfl .rfl .rfl
  | hire hm =>
    refine h.quiet rfl rfl rfl rfl ?_ ?_
    · simp [Crew.held, List.filterMap_cons, Stage.task?]
    · simp [Crew.unsent, List.filterMap_cons, Stage.report?]
  | fail hm => exact hs.not_obstructed.elim
  | @receive r rest hm hq =>
    exact
      { taken := by simpa [Event.tasksTaken, receive] using h.taken
        held := by simpa [Event.tasksEnded, Event.tasksTaken, Crew.held, receive] using h.held
        reported := by
          simpa [Event.reportsMade, Event.reportsReceived, Crew.unsent, receive, hq] using
            h.reported
        summary := by simp [Event.reportsReceived, receive, h.summary]
        failure := by simp [Event.reportsReceived, receive, h.failure] }
  | close hm hs ho => exact h.quiet rfl rfl rfl rfl .rfl .rfl

end Crew
end Choropleth
