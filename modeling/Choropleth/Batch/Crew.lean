import Choropleth.Batch.Job

/-!
# Crews

A crew works off a list of tasks. Its workers take the tasks from one queue, and its manager
receives their reports in the order in which they are sent. After the first failure nobody takes a
further task. Workers and manager move one at a time, in any order, and a worker may do its task in
several steps.

* `Job`: what is left to do for a task;
* `Stage`: what a worker is about to do;
* `Crew`: a crew in the middle of its work;
* `Crew.step`: a move of a worker or of the manager;
* `Event`, `Crew.event`: what happens at a move.
-/

namespace Choropleth

/-- What a worker is about to do. -/
inductive Stage (τ ω : Type)
  /-- To see whether the work has been stopped. -/
  | ready
  /-- To take a task. -/
  | cleared
  /-- To do the next step for the task that it holds. -/
  | holding (task : τ) (job : Job ω)
  /-- To stop the work, since its task has failed. -/
  | stopping (e : BatchError)
  /-- To send its report. -/
  | reporting (report : Report)
  /-- Nothing any more. -/
  | gone
  /-- Nothing any more, since it was lost in the middle of a task. -/
  | lost

namespace Stage

variable {τ ω : Type}

/-- The worker will not do anything any more. -/
def isOver : Stage τ ω → Bool
  | gone => true
  | lost => true
  | _ => false

/-- The worker was lost. -/
def isLost : Stage τ ω → Bool
  | lost => true
  | _ => false

/-- What a worker does after a step for a task. -/
def afterStep (task : τ) : Job ω ⊕ Option Report → Stage τ ω
  | .inl job => holding task job
  | .inr none => lost
  | .inr (some (.error e)) => stopping e
  | .inr (some (.ok o)) => reporting (.ok o)

end Stage

/-- What the manager is about to do. -/
inductive Manager
  /-- To hire as many more workers. -/
  | hiring (left : Nat)
  /-- To receive reports until all workers have gone. -/
  | collecting
  /-- Nothing any more: the batch has ended. -/
  | closed (result : Except BatchError Summary)

/-- A crew in the middle of its work. -/
structure Crew (τ ω : Type) where
  queue : List τ
  stopped : Bool := false
  stages : List (Stage τ ω) := []
  /-- The reports that have been sent and not yet received, the oldest first. -/
  sent : List Report := []
  manager : Manager
  summary : Summary := {}
  /-- The first failure that the manager has received. -/
  failure : Option BatchError := none
  progress : List Progress := []
  /-- What the tasks work on. -/
  world : ω

/-- Whose move it is. The manager may fail to hire. -/
inductive Actor
  | manager (obstacle : Option BatchError)
  | worker (number : Nat)
deriving DecidableEq

/-- What happens at a move, as far as it concerns tasks and reports. -/
inductive Event (τ : Type)
  /-- A worker takes a task. -/
  | took (task : τ)
  /-- A task ends, with a report unless the worker is lost. -/
  | ended (task : τ) (report : Option Report)
  /-- The manager receives a report. -/
  | received (report : Report)
  /-- The manager cannot hire. -/
  | obstructed (e : BatchError)
  | other

namespace Crew

variable {τ ω : Type}

/-- The number of workers for some tasks: one at least, and not more than tasks. -/
def workerCount (asked tasks : Nat) : Nat := max 1 (min asked (max tasks 1))

/-- A crew at the beginning of its work. -/
def start (tasks : List τ) (workers : Nat) (world : ω) : Crew τ ω where
  queue := tasks
  manager := .hiring (workerCount workers tasks.length)
  progress := [.total tasks.length]
  world

/-- The manager does not listen any more. -/
def isClosed (c : Crew τ ω) : Bool :=
  match c.manager with
  | .closed _ => true
  | _ => false

/-- Puts a worker in a stage. -/
def withStage (c : Crew τ ω) (i : Nat) (s : Stage τ ω) : Crew τ ω :=
  { c with stages := c.stages.set i s }

section withStage

variable (c : Crew τ ω) (i : Nat) (s : Stage τ ω)

@[simp] theorem withStage_stages : (c.withStage i s).stages = c.stages.set i s := rfl

@[simp] theorem withStage_queue : (c.withStage i s).queue = c.queue := rfl

@[simp] theorem withStage_stopped : (c.withStage i s).stopped = c.stopped := rfl

@[simp] theorem withStage_sent : (c.withStage i s).sent = c.sent := rfl

@[simp] theorem withStage_manager : (c.withStage i s).manager = c.manager := rfl

@[simp] theorem withStage_summary : (c.withStage i s).summary = c.summary := rfl

@[simp] theorem withStage_failure : (c.withStage i s).failure = c.failure := rfl

@[simp] theorem withStage_world : (c.withStage i s).world = c.world := rfl

end withStage

/-- A move of a worker in a stage. -/
def workerMove (jobs : τ → Job ω) (c : Crew τ ω) (i : Nat) : Stage τ ω → Option (Crew τ ω)
  | .ready => some (c.withStage i (if c.stopped then .gone else .cleared))
  | .cleared =>
    match c.queue with
    | [] => some (c.withStage i .gone)
    | t :: rest => some ({ c with queue := rest }.withStage i (.holding t (jobs t)))
  | .holding t job =>
    match job.next c.world with
    | (left, world) => some ({ c with world }.withStage i (.afterStep t left))
  | .stopping e => some ({ c with stopped := true }.withStage i (.reporting (.error e)))
  | .reporting r =>
    if c.isClosed then some (c.withStage i .gone)
    else some ({ c with sent := c.sent ++ [r] }.withStage i .ready)
  | .gone => none
  | .lost => none

/-- What the manager reports at the end. -/
def finishText (s : Summary) : String :=
  toString s.written ++ " written, " ++ toString s.existing ++ " existing"

/-- The manager receives a report. -/
def receive (c : Crew τ ω) (r : Report) : Crew τ ω :=
  { c with
    progress := c.progress ++ [.advance 1]
    summary := c.summary.tally r
    failure := c.failure.or (failureOf? r) }

/-- How the batch has come out. -/
def verdict (c : Crew τ ω) : Except BatchError Summary :=
  if c.stages.any Stage.isLost then .error .workerLost
  else
    match c.failure with
    | some e => .error e
    | none => .ok c.summary

/-- What the manager reports at the end; nothing if a worker was lost. -/
def lastProgress (c : Crew τ ω) : List Progress :=
  if c.stages.any Stage.isLost then []
  else if c.failure.isSome then [.finish "failed"]
  else [.finish (finishText c.summary)]

/-- The manager ends the batch. -/
def close (c : Crew τ ω) : Crew τ ω :=
  { c with progress := c.progress ++ c.lastProgress, manager := .closed c.verdict }

/-- A move of the manager. -/
def managerMove (c : Crew τ ω) (obstacle : Option BatchError) : Option (Crew τ ω) :=
  match c.manager with
  | .hiring 0 => some { c with manager := .collecting }
  | .hiring (n + 1) =>
    match obstacle with
    | some e => some { c with manager := .closed (.error e) }
    | none => some { c with stages := c.stages ++ [.ready], manager := .hiring n }
  | .collecting =>
    match c.sent with
    | r :: rest => some ({ c with sent := rest }.receive r)
    | [] => if c.stages.all Stage.isOver then some c.close else none
  | .closed _ => none

/-- A move; none if the actor has to wait or has nothing left to do. -/
def step (jobs : τ → Job ω) (c : Crew τ ω) : Actor → Option (Crew τ ω)
  | .manager obstacle => c.managerMove obstacle
  | .worker i => c.stages[i]?.bind (c.workerMove jobs i)

/-- What happens at a move of a worker in a stage. -/
def workerEvent (c : Crew τ ω) : Stage τ ω → Event τ
  | .cleared =>
    match c.queue with
    | [] => .other
    | t :: _ => .took t
  | .holding t job =>
    match (job.next c.world).1 with
    | .inl _ => .other
    | .inr report => .ended t report
  | _ => .other

/-- What happens at a move of the manager. -/
def managerEvent (c : Crew τ ω) (obstacle : Option BatchError) : Event τ :=
  match c.manager, obstacle, c.sent with
  | .hiring (_ + 1), some e, _ => .obstructed e
  | .collecting, _, r :: _ => .received r
  | _, _, _ => .other

/-- What happens at a move. -/
def event (c : Crew τ ω) : Actor → Event τ
  | .manager obstacle => c.managerEvent obstacle
  | .worker i => (c.stages[i]?.map c.workerEvent).getD .other

/-- How a batch has ended. -/
def result (c : Crew τ ω) : Except BatchError Summary :=
  match c.manager with
  | .closed r => r
  | _ => .error .workerLost

end Crew
end Choropleth
