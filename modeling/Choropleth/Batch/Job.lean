import Choropleth.Batch.Basic

/-!
# Reports and jobs

Working off a task may take several steps, between which others may change what it works on.

* `Report`, `delivered`, `Summary.tally`: what a task has come to, or why it failed;
* `Job`: what is left to do for a task;
* `Job.next`: its next step;
* `Job.finish`: all its steps, one after the other;
* `production`: the job of a task that writes a file.
-/

namespace Choropleth

/-- What a task has come to, or why it failed. -/
abbrev Report := Except BatchError TaskOutcome

/-- Why the task failed. -/
def failureOf? : Report → Option BatchError
  | .ok _ => none
  | .error e => some e

/-- The report as it is delivered: none if the worker is lost. -/
def delivered : Report → Option Report
  | .error .workerLost => none
  | report => some report

@[simp] theorem delivered_error_ne_ok (e : BatchError) (o : TaskOutcome) :
    delivered (.error e) ≠ some (.ok o) := by
  cases e <;> simp [delivered]

/-- Counts what the task has come to, unless it failed. -/
def Summary.tally (s : Summary) : Report → Summary
  | .ok o => s.record o
  | .error _ => s

/-- What is left to do for a task. -/
inductive Job (ω : Type)
  /-- A step that ends the task, with a report unless the worker is lost. -/
  | last (act : ω → Option Report × ω)
  /-- A step that ends the task if it has a report, and what is left to do otherwise. -/
  | step (act : ω → Option Report × ω) (rest : Unit → Job ω)

namespace Job

variable {ω : Type}

/-- The number of steps, if none of them ends the task before the last. -/
def length : Job ω → Nat
  | last _ => 1
  | step _ rest => (rest ()).length + 1

/-- Does one step. The task goes on with a job, or it has ended with a report; none if the worker is
lost. -/
def next : Job ω → ω → (Job ω ⊕ Option Report) × ω
  | last act, w =>
    match act w with
    | (report, w) => (.inr report, w)
  | step act rest, w =>
    match act w with
    | (some report, w) => (.inr (some report), w)
    | (none, w) => (.inl (rest ()), w)

/-- Does all steps, without a step of anybody else between them. -/
def finish : Job ω → ω → Option Report × ω
  | last act, w => act w
  | step act rest, w =>
    match act w with
    | (some report, w) => (some report, w)
    | (none, w) => (rest ()).finish w

theorem length_pos (j : Job ω) : 0 < j.length := by
  cases j <;> simp [length]

theorem length_of_next {j k : Job ω} {w w' : ω} (h : j.next w = (.inl k, w')) :
    k.length < j.length := by
  cases j with
  | last act => simp [next] at h
  | step act rest =>
    simp only [next] at h
    split at h
    · simp at h
    · obtain ⟨rfl, -⟩ : rest () = k ∧ _ := by simpa using h
      simp [length]

/-- Takes steps in a tree of files and ends with an outcome, or with the first fault. -/
def ofFileSteps (outcome : TaskOutcome) : List FileStep → Job Tree
  | [] => last fun t => (some (.ok outcome), t)
  | s :: r =>
    step
      (fun t =>
        match s.run t with
        | (.error f, t) => (some (.error (.file f)), t)
        | (.ok (), t) => (none, t))
      fun _ => ofFileSteps outcome r

theorem finish_ofFileSteps (outcome : TaskOutcome) (steps : List FileStep) (t : Tree) :
    (ofFileSteps outcome steps).finish t =
      match FileStep.runAll t steps with
      | (.error f, t) => (some (.error (.file f)), t)
      | (.ok (), t) => (some (.ok outcome), t) := by
  induction steps generalizing t with
  | nil => rfl
  | cons s r ih =>
    simp only [ofFileSteps, finish, FileStep.runAll]
    rcases s.run t with ⟨_ | _, t'⟩
    · rfl
    · exact ih t'

end Job

/-- Sees whether there is anything to write for the task of a category. -/
def inspect (category path : String) (t : Tree) : Option Report × Tree :=
  if Category.isTotals category then (some (.ok (.skipped category)), t)
  else if t.isThere path then (some (.ok (.existing path)), t)
  else (none, t)

/-- The job of the task of a category: it sees whether there is anything to write, makes the text,
and replaces the file step by step. The worker may be lost in making the text. -/
def production (category path : String) (text : Unit → Except BatchError String) : Job Tree :=
  .step (inspect category path) fun _ =>
    match text () with
    | .error e => .last fun t => (delivered (.error e), t)
    | .ok s => .ofFileSteps (.written path) (replaceSteps path (.text s))

/-- Without steps of others in between, the job is the whole work of the task. -/
theorem finish_production (category path : String) (text : Unit → Except BatchError String)
    (t : Tree) :
    (production category path text).finish t =
      (delivered (produce category path text t).1, (produce category path text t).2) := by
  simp only [production, Job.finish, inspect, produce]
  by_cases hc : Category.isTotals category = true
  · simp [hc, delivered]
  by_cases hp : t.isThere path = true
  · simp [hc, hp, delivered]
  rcases ht : text () with e | s
  · simp [hc, hp, Job.finish]
  · simp only [hc, hp, Bool.false_eq_true, if_false, Job.finish_ofFileSteps, Tree.replace]
    rcases FileStep.runAll t (replaceSteps path (.text s)) with ⟨_ | _, t'⟩ <;> rfl

end Choropleth
