import Choropleth.Batch.Crew

/-!
# Runs of crews

Every move of a crew uses up something, so a crew comes to an end however its members take turns.

* `Crew.Move`: the moves, one by one;
* `Crew.weight`: a number that falls with every move;
* `Crew.run`: a crew that works off its tasks, one worker after the other.
-/

namespace Choropleth

/-- What a task that is done in one step does to what it works on, and its report; none if the
worker is lost with it. -/
abbrev Work (τ ω : Type) := τ → ω → Option Report × ω

/-- A bound for the moves of a worker up to the next task that it takes. -/
def Stage.weight {τ ω : Type} : Stage τ ω → Nat
  | ready => 2
  | cleared => 1
  | holding _ job => job.length + 5
  | stopping _ => 5
  | reporting _ => 4
  | gone => 0
  | lost => 0

theorem Stage.weight_afterStep_lt {τ ω : Type} (task : τ) {j : Job ω} {w w' : ω}
    {left : Job ω ⊕ Option Report} (h : j.next w = (left, w')) :
    (afterStep task left).weight < j.length + 5 := by
  have := j.length_pos
  rcases left with k | _ | e | o
  · simpa [afterStep, weight] using Job.length_of_next h
  all_goals
    simp only [afterStep, weight]
    omega

/-- A bound for the moves of a manager other than receiving, and of the workers that it still hires
up to their first task. -/
def Manager.weight : Manager → Nat
  | hiring left => 3 * left + 2
  | collecting => 1
  | closed _ => 0

namespace Crew

variable {τ ω : Type} {jobs : τ → Job ω} {c c' : Crew τ ω}

/-- The moves, one by one, with what happens at them. -/
inductive Move (jobs : τ → Job ω) (c : Crew τ ω) : Event τ → Crew τ ω → Prop
  | look {i : Nat} (hi : c.stages[i]? = some .ready) :
    Move jobs c .other (c.withStage i (if c.stopped then .gone else .cleared))
  | leave {i : Nat} (hi : c.stages[i]? = some .cleared) (hq : c.queue = []) :
    Move jobs c .other (c.withStage i .gone)
  | take {i : Nat} {t : τ} {rest : List τ} (hi : c.stages[i]? = some .cleared)
    (hq : c.queue = t :: rest) :
    Move jobs c (.took t) ({ c with queue := rest }.withStage i (.holding t (jobs t)))
  | work {i : Nat} {t : τ} {job job' : Job ω} {world : ω}
    (hi : c.stages[i]? = some (.holding t job)) (hn : job.next c.world = (.inl job', world)) :
    Move jobs c .other ({ c with world }.withStage i (.holding t job'))
  | ends {i : Nat} {t : τ} {job : Job ω} {report : Option Report} {world : ω}
    (hi : c.stages[i]? = some (.holding t job)) (hn : job.next c.world = (.inr report, world)) :
    Move jobs c (.ended t report) ({ c with world }.withStage i (.afterStep t (.inr report)))
  | stop {i : Nat} {e : BatchError} (hi : c.stages[i]? = some (.stopping e)) :
    Move jobs c .other ({ c with stopped := true }.withStage i (.reporting (.error e)))
  | send {i : Nat} {r : Report} (hi : c.stages[i]? = some (.reporting r))
    (hm : c.isClosed = false) :
    Move jobs c .other ({ c with sent := c.sent ++ [r] }.withStage i .ready)
  | giveUp {i : Nat} {r : Report} (hi : c.stages[i]? = some (.reporting r))
    (hm : c.isClosed = true) :
    Move jobs c .other (c.withStage i .gone)
  | listen (hm : c.manager = .hiring 0) :
    Move jobs c .other { c with manager := .collecting }
  | hire {n : Nat} (hm : c.manager = .hiring (n + 1)) :
    Move jobs c .other { c with stages := c.stages ++ [.ready], manager := .hiring n }
  | fail {n : Nat} {e : BatchError} (hm : c.manager = .hiring (n + 1)) :
    Move jobs c (.obstructed e) { c with manager := .closed (.error e) }
  | receive {r : Report} {rest : List Report} (hm : c.manager = .collecting)
    (hs : c.sent = r :: rest) :
    Move jobs c (.received r) ({ c with sent := rest }.receive r)
  | close (hm : c.manager = .collecting) (hs : c.sent = []) (ho : c.stages.all Stage.isOver) :
    Move jobs c .other c.close

theorem move_of_managerMove {obstacle : Option BatchError}
    (h : c.managerMove obstacle = some c') : Move jobs c (c.managerEvent obstacle) c' := by
  unfold managerMove at h
  split at h
  case h_1 hm => cases h; simpa [managerEvent, hm] using .listen hm
  case h_2 n hm =>
    cases obstacle with
    | none => cases h; simpa [managerEvent, hm] using .hire hm
    | some e => cases h; simpa [managerEvent, hm] using .fail hm
  case h_3 hm =>
    split at h
    case h_1 r rest hs =>
      obtain rfl : Crew.receive { c with sent := rest } r = c' := by simpa using h
      simpa only [managerEvent, hm, hs] using Move.receive hm hs
    case h_2 hs =>
      obtain ⟨ho, rfl⟩ := by simpa using h
      simpa [managerEvent, hm, hs] using .close hm hs (by simpa using ho)
  case h_4 => cases h

theorem move_of_workerMove {i : Nat} {s : Stage τ ω} (hi : c.stages[i]? = some s)
    (h : c.workerMove jobs i s = some c') : Move jobs c (c.workerEvent s) c' := by
  cases s with
  | ready => cases h; exact .look hi
  | cleared =>
    simp only [workerMove] at h
    split at h
    case h_1 hq => cases h; simpa [workerEvent, hq] using .leave hi hq
    case h_2 t rest hq => cases h; simpa [workerEvent, hq] using .take hi hq
  | holding t job =>
    simp only [workerMove] at h
    cases h
    rcases hn : job.next c.world with ⟨job' | report, world⟩
    · simpa [workerEvent, hn] using .work hi hn
    · simpa [workerEvent, hn] using .ends hi hn
  | stopping e => cases h; exact .stop hi
  | reporting r =>
    cases hm : c.isClosed <;> simp only [workerMove, hm] at h <;> cases h
    · exact .send hi hm
    · exact .giveUp hi hm
  | gone => cases h
  | lost => cases h

/-- What `step` does is one of the moves. -/
theorem move_of_step {a : Actor} (h : c.step jobs a = some c') : Move jobs c (c.event a) c' := by
  cases a with
  | manager obstacle => exact move_of_managerMove h
  | worker i =>
    obtain ⟨s, hi, hs⟩ := Option.bind_eq_some_iff.1 h
    simpa [event, hi] using move_of_workerMove hi hs

/-- The sum of some numbers. -/
def total : List Nat → Nat
  | [] => 0
  | n :: ns => n + total ns

@[simp] theorem total_nil : total [] = 0 := rfl

@[simp] theorem total_cons (n : Nat) (ns : List Nat) : total (n :: ns) = n + total ns := rfl

@[simp] theorem total_append (ns ms : List Nat) : total (ns ++ ms) = total ns + total ms := by
  induction ns with
  | nil => simp
  | cons n ns ih => simp [ih, Nat.add_assoc]

/-- A number in a list takes part in the sum. -/
theorem total_set_add {ns : List Nat} {i n : Nat} (m : Nat) (hi : ns[i]? = some n) :
    total (ns.set i m) + n = total ns + m := by
  induction ns generalizing i with
  | nil => simp at hi
  | cons k ns ih =>
    cases i with
    | zero =>
      obtain rfl : k = n := by simpa using hi
      simp; omega
    | succ i =>
      have := ih (i := i) (by simpa using hi)
      simp; omega

/-- A bound for the moves of a crew. -/
def weight (jobs : τ → Job ω) (c : Crew τ ω) : Nat :=
  total (c.queue.map fun t => (jobs t).length + 5) + total (c.stages.map Stage.weight) +
    c.sent.length + c.manager.weight

theorem total_weight_withStage {i : Nat} {s : Stage τ ω} (s' : Stage τ ω)
    (hi : c.stages[i]? = some s) :
    total ((c.withStage i s').stages.map Stage.weight) + s.weight =
      total (c.stages.map Stage.weight) + s'.weight := by
  rw [withStage, List.map_set]
  exact total_set_add _ (by simp [hi])

/-- A move of a worker that puts it in a lighter stage, or gives it what is lighter in the rest of
the crew. -/
theorem weight_withStage_lt {d : Crew τ ω} {i : Nat} {s s' : Stage τ ω}
    (hi : c.stages[i]? = some s) (hs : d.stages = c.stages) (hm : d.manager = c.manager)
    (h : total (d.queue.map fun t => (jobs t).length + 5) + d.sent.length + s'.weight <
      total (c.queue.map fun t => (jobs t).length + 5) + c.sent.length + s.weight) :
    (d.withStage i s').weight jobs < c.weight jobs := by
  have := total_weight_withStage s' (hs ▸ hi)
  simp only [weight, hs, hm, withStage] at this ⊢
  omega

theorem weight_lt_of_move {e : Event τ} (h : Move jobs c e c') :
    c'.weight jobs < c.weight jobs := by
  cases h with
  | look hi => exact weight_withStage_lt hi rfl rfl (by split <;> simp [Stage.weight])
  | leave hi hq => exact weight_withStage_lt hi rfl rfl (by simp [Stage.weight])
  | take hi hq => exact weight_withStage_lt hi rfl rfl (by simp [Stage.weight, hq]; omega)
  | @work _ t _ _ _ hi hn =>
    have := Stage.weight_afterStep_lt t hn
    exact weight_withStage_lt hi rfl rfl (by simpa [Stage.weight, Stage.afterStep] using this)
  | @ends _ t _ _ _ hi hn =>
    have := Stage.weight_afterStep_lt t hn
    exact weight_withStage_lt hi rfl rfl (by simpa [Stage.weight] using this)
  | stop hi => exact weight_withStage_lt hi rfl rfl (by simp [Stage.weight])
  | send hi hm => exact weight_withStage_lt hi rfl rfl (by simp [Stage.weight]; omega)
  | giveUp hi hm => exact weight_withStage_lt hi rfl rfl (by simp [Stage.weight])
  | listen hm => simp [weight, hm, Manager.weight]
  | hire hm => simp [weight, hm, Manager.weight, Stage.weight]; omega
  | fail hm => simp [weight, hm, Manager.weight]
  | receive hm hs => simp [receive, weight, hm, hs]
  | close hm hs ho => simp [Crew.close, weight, hm, hs, Manager.weight]

theorem weight_lt_of_step {a : Actor} (h : c.step jobs a = some c') :
    c'.weight jobs < c.weight jobs :=
  weight_lt_of_move (move_of_step h)

/-- Whose move it is when the manager goes first and then the first worker that is not over. -/
def turn (c : Crew τ ω) : Actor :=
  match c.manager, c.sent with
  | .collecting, [] =>
    match c.stages.findIdx? fun s => !s.isOver with
    | some i => .worker i
    | none => .manager none
  | _, _ => .manager none

/-- Makes moves until nobody can move. -/
def finish (jobs : τ → Job ω) (c : Crew τ ω) : Crew τ ω :=
  match _h : c.step jobs c.turn with
  | none => c
  | some c' => finish jobs c'
termination_by c.weight jobs
decreasing_by exact weight_lt_of_step _h

/-- A crew that works off its tasks step by step, one worker after the other. -/
def runJobs (jobs : τ → Job ω) (tasks : List τ) (workers : Nat) (world : ω) : Crew τ ω :=
  (start tasks workers world).finish jobs

/-- A crew that works off its tasks, each of them in one step, one worker after the other. -/
def run (work : Work τ ω) (tasks : List τ) (workers : Nat) (world : ω) : Crew τ ω :=
  runJobs (fun t => .last (work t)) tasks workers world

end Crew
end Choropleth
