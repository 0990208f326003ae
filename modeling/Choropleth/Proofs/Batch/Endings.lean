import Mathlib.Data.List.Count
import Choropleth.Proofs.Batch.Accounts

/-!
# How batches end

A run without obstacles ends with a summary of all tasks if they succeed, and with the first failure
received otherwise. After a failure every other worker takes one more task at most.

* `Job.MayEnd`: the reports that a job may come to;
* `Crew.Orderly`: when workers stop, and how the crew closes;
* `Crew.batch_does_each_task_once`: what a batch does, whoever moves when.
-/

namespace Choropleth

/-- A job may come to a report, or to the loss of its worker, if others may change what it works on
between its steps. -/
inductive Job.MayEnd {ω : Type} : Job ω → Option Report → Prop
  | last {act : ω → Option Report × ω} (w : ω) : MayEnd (.last act) (act w).1
  | now {act : ω → Option Report × ω} {rest : Unit → Job ω} {w : ω} {r : Report}
    (h : (act w).1 = some r) : MayEnd (.step act rest) (some r)
  | later {act : ω → Option Report × ω} {rest : Unit → Job ω} {w : ω} {r : Option Report}
    (h : (act w).1 = none) (hr : MayEnd (rest ()) r) : MayEnd (.step act rest) r

theorem Job.mayEnd_of_next {ω : Type} {j : Job ω} {w w' : ω} {r : Option Report}
    (h : j.next w = (.inr r, w')) : j.MayEnd r := by
  cases j with
  | last act =>
    obtain ⟨rfl, -⟩ : (act w).1 = r ∧ (act w).2 = w' := by simpa [next] using h
    exact .last w
  | step act rest =>
    simp only [next] at h
    split at h
    case h_1 report w'' hact =>
      obtain ⟨rfl, -⟩ : some report = r ∧ w'' = w' := by simpa using h
      exact .now (by rw [hact])
    case h_2 => simp at h

theorem Job.mayEnd_step {ω : Type} {j k : Job ω} {w w' : ω} {r : Option Report}
    (h : j.next w = (.inl k, w')) (hr : k.MayEnd r) : j.MayEnd r := by
  cases j with
  | last act => simp [next] at h
  | step act rest =>
    simp only [next] at h
    split at h
    case h_1 => simp at h
    case h_2 w'' hact =>
      obtain ⟨rfl, -⟩ : rest () = k ∧ w'' = w' := by simpa using h
      exact .later (by rw [hact]) hr

/-- The file of the task has been written. -/
def Report.isWritten : Report → Bool
  | .ok (.written _) => true
  | _ => false

/-- The file of the task was there already. -/
def Report.isExisting : Report → Bool
  | .ok (.existing _) => true
  | _ => false

/-- No file is made for the category of the task. -/
def Report.isSkipped : Report → Bool
  | .ok (.skipped _) => true
  | _ => false

theorem foldl_tally (rs : List Report) (s : Summary) :
    rs.foldl Summary.tally s =
      ⟨s.written + rs.countP Report.isWritten, s.existing + rs.countP Report.isExisting,
        s.skipped + rs.countP Report.isSkipped⟩ := by
  induction rs generalizing s with
  | nil => rfl
  | cons r rs ih =>
    rw [List.foldl_cons, ih]
    rcases r with e | ⟨p | p | p⟩ <;>
      simp [Summary.tally, Summary.record, List.countP_cons, Report.isWritten, Report.isExisting,
        Report.isSkipped, Nat.add_assoc, Nat.add_comm 1]

theorem countP_outcomes {rs : List Report} (h : ∀ r ∈ rs, r.isOk = true) :
    rs.countP Report.isWritten + rs.countP Report.isExisting + rs.countP Report.isSkipped =
      rs.length := by
  induction rs with
  | nil => rfl
  | cons r rs ih =>
    obtain ⟨hr, hrs⟩ := List.forall_mem_cons.1 h
    have := ih hrs
    rcases r with e | ⟨p | p | p⟩
    · cases hr
    all_goals
      simp [List.countP_cons, Report.isWritten, Report.isExisting, Report.isSkipped] at this ⊢
      omega

theorem failureOf?_eq_none {r : Report} : failureOf? r = none ↔ r.isOk = true := by
  cases r <;> simp [failureOf?, Except.isOk, Except.toBool]

theorem failureOf?_eq_some {r : Report} {e : BatchError} : failureOf? r = some e ↔ r = .error e := by
  cases r <;> simp [failureOf?]

/-- The worker is about to take a task. -/
def Stage.isCleared {τ ω : Type} : Stage τ ω → Bool
  | cleared => true
  | _ => false

/-- How many more workers the manager will hire. -/
def Manager.unhired : Manager → ℕ
  | hiring left => left
  | _ => 0

namespace Crew

variable {τ ω : Type} {jobs : τ → Job ω} {c c' d : Crew τ ω} {tasks : List τ} {workers : ℕ}
  {es : List (Event τ)} {e : Event τ}

/-- Workers leave only when the work has been stopped or nothing is left, the work is stopped only
after a failure, and the crew closes when everybody has left and everything has been received. -/
structure Orderly (workers : ℕ) (es : List (Event τ)) (c : Crew τ ω) : Prop where
  hired : c.stages.length + c.manager.unhired = workers
  unlost : ∀ s ∈ c.stages, s.isLost = false
  left : ∀ s ∈ c.stages, s.isOver = true → c.stopped = true ∨ c.queue = []
  raised : c.stopped = true → ∃ fault, .error fault ∈ Event.reportsMade es
  spare : c.stopped = true → c.stages.countP Stage.isCleared < workers
  closed : ∀ r, c.manager = .closed r →
    (∀ s ∈ c.stages, s.isOver = true) ∧ c.sent = [] ∧ r = c.verdict

theorem exists_of_isClosed (h : c.isClosed = true) : ∃ r, c.manager = .closed r := by
  unfold isClosed at h
  split at h
  case h_1 r hm => exact ⟨r, hm⟩
  case h_2 => cases h

theorem orderly_start (tasks : List τ) (workers : ℕ) (world : ω) :
    Orderly (workerCount workers tasks.length) [] (start tasks workers world) where
  hired := by simp [start, Manager.unhired]
  unlost := by simp [start]
  left := by simp [start]
  raised := by simp [start]
  spare := by simp [start]
  closed := by simp [start]

/-- A move of a worker that was not over. -/
theorem Orderly.restage (h : Orderly workers es c) {i : ℕ} {s s' : Stage τ ω}
    (hi : c.stages[i]? = some s) (ho : s.isOver = false) (hd : d.stages = c.stages)
    (hm : d.manager = c.manager) (hl : s'.isLost = false)
    (hleft : s'.isOver = true → d.stopped = true ∨ d.queue = [])
    (hkeep : c.stopped = true ∨ c.queue = [] → d.stopped = true ∨ d.queue = [])
    (hraised : d.stopped = true → ∃ fault, .error fault ∈ Event.reportsMade (es ++ [e]))
    (hclear : d.stopped = true → s'.isCleared = false) :
    Orderly workers (es ++ [e]) (d.withStage i s') where
  hired := by simpa [hd, hm] using h.hired
  unlost := by
    intro x hx
    rw [withStage_stages, hd] at hx
    rcases List.mem_or_eq_of_mem_set hx with hx | rfl
    · exact h.unlost x hx
    · exact hl
  left := by
    intro x hx hox
    rw [withStage_stages, hd] at hx
    rcases List.mem_or_eq_of_mem_set hx with hx | rfl
    · exact hkeep (h.left x hx hox)
    · exact hleft hox
  raised := hraised
  spare := by
    intro hst
    obtain ⟨hlt, -⟩ := List.getElem?_eq_some_iff.1 hi
    have hone : (c.stages.set i s').countP Stage.isCleared < (c.stages.set i s').length :=
      List.countP_lt_length_iff.2 ⟨s', List.mem_set hlt s', hclear hst⟩
    have := h.hired
    rw [withStage_stages, hd]
    rw [List.length_set] at hone
    omega
  closed := by
    intro r hr
    have := (h.closed r (hm ▸ hr)).1 s (List.mem_of_getElem? hi)
    simp [ho] at this

theorem Orderly.raised_append (h : Orderly workers es c) (e : Event τ) (hst : c.stopped = true) :
    ∃ fault, .error fault ∈ Event.reportsMade (es ++ [e]) := by
  obtain ⟨fault, hf⟩ := h.raised hst
  exact ⟨fault, by simp [hf]⟩

theorem Orderly.move (h : Orderly workers es c) (hl : Accounts tasks es c) (hm : Move jobs c e c')
    (hs : Event.Smooth [e]) : Orderly workers (es ++ [e]) c' := by
  cases hm with
  | look hi =>
    refine h.restage hi rfl rfl rfl ?_ ?_ id (h.raised_append _) ?_
    all_goals cases hst : c.stopped <;> simp [Stage.isLost, Stage.isOver, Stage.isCleared]
  | leave hi hq =>
    exact h.restage hi rfl rfl rfl rfl (fun _ => .inr hq) id (h.raised_append _) fun _ => rfl
  | take hi hq =>
    refine h.restage hi rfl rfl rfl rfl (fun ho => by cases ho) ?_ (h.raised_append _) fun _ => rfl
    rintro (hst | hq')
    · exact .inl hst
    · simp [hq] at hq'
  | work hi hn =>
    exact h.restage hi rfl rfl rfl rfl (fun ho => by cases ho) id (h.raised_append _) fun _ => rfl
  | @ends i t job report world hi hn =>
    obtain ⟨r, rfl⟩ := hs.exists_report
    have hover : (Stage.afterStep t (.inr (some r)) : Stage τ ω).isOver = false := by
      cases r <;> rfl
    refine h.restage hi rfl rfl rfl ?_ (fun ho => ?_) id (h.raised_append _) fun _ => ?_
    · cases r <;> rfl
    · rw [hover] at ho
      cases ho
    · cases r <;> rfl
  | @stop i fault hi =>
    have hmade : .error fault ∈ Event.reportsMade es := by
      refine hl.reported.subset (List.mem_append_right _ ?_)
      exact List.mem_filterMap.2 ⟨_, List.mem_of_getElem? hi, rfl⟩
    exact h.restage hi rfl rfl rfl rfl (fun ho => by cases ho) (fun _ => .inl rfl)
      (fun _ => ⟨fault, by simp [hmade]⟩) fun _ => rfl
  | send hi hm =>
    exact h.restage hi rfl rfl rfl rfl (fun ho => by cases ho) id (h.raised_append _) fun _ => rfl
  | @giveUp i r hi hm =>
    -- the crew has closed, so this worker has long gone
    obtain ⟨r', hr'⟩ := exists_of_isClosed hm
    have := (h.closed r' hr').1 _ (List.mem_of_getElem? hi)
    cases this
  | listen hm =>
    exact
      { h with
        hired := by simpa [hm, Manager.unhired] using h.hired
        raised := h.raised_append _
        closed := fun r hr => by cases hr }
  | hire hm =>
    exact
      { hired := by
          have := h.hired
          simp only [hm, Manager.unhired, List.length_append, List.length_singleton] at this ⊢
          omega
        unlost := by simpa [or_imp, forall_and, Stage.isLost] using h.unlost
        left := by simpa [or_imp, forall_and, Stage.isOver] using h.left
        raised := h.raised_append _
        spare := by simpa [List.countP_append, Stage.isCleared] using h.spare
        closed := fun r hr => by cases hr }
  | fail hm => exact hs.not_obstructed.elim
  | receive hm hq =>
    exact
      { h with
        raised := h.raised_append _
        closed := fun r hr => by simp [receive, hm] at hr }
  | close hm hq ho =>
    exact
      { h with
        hired := by simpa [hm, Crew.close, Manager.unhired] using h.hired
        raised := h.raised_append _
        closed := by
          intro r hr
          obtain rfl : c.verdict = r := by simpa [Crew.close] using hr
          exact ⟨List.all_eq_true.1 ho, hq, rfl⟩ }

theorem Runs.accounts_orderly {world : ω} (h : Runs jobs (start tasks workers world) es c)
    (hs : Event.Smooth es) :
    Accounts tasks es c ∧ Orderly (workerCount workers tasks.length) es c :=
  h.invariant (P := fun es c => Accounts tasks es c ∧ Orderly _ es c) hs
    ⟨accounts_start _ _ _, orderly_start _ _ _⟩ fun ⟨hl, ho⟩ hm hs =>
      ⟨hl.move hm hs fun hc =>
        let ⟨r, hr⟩ := exists_of_isClosed hc
        (ho.closed r hr).1, ho.move hl hm hs⟩

/-! ### After a failure -/

theorem countP_withStage {i : ℕ} {s : Stage τ ω} (hd : d.stages = c.stages) (s' : Stage τ ω)
    (hi : c.stages[i]? = some s) :
    (d.withStage i s').stages.countP Stage.isCleared + (if s.isCleared then 1 else 0) =
      c.stages.countP Stage.isCleared + if s'.isCleared then 1 else 0 := by
  obtain ⟨hlt, rfl⟩ := List.getElem?_eq_some_iff.1 hi
  have hpos : c.stages[i].isCleared = true → 0 < c.stages.countP Stage.isCleared := fun h =>
    List.countP_pos_iff.2 ⟨_, List.getElem_mem hlt, h⟩
  rw [withStage_stages, hd, List.countP_set hlt]
  by_cases hs : c.stages[i].isCleared = true
  · have := hpos hs
    rw [if_pos hs]
    omega
  · rw [if_neg hs]
    omega

/-- A move of a worker that takes a task only if it was about to. -/
theorem drain_withStage {i : ℕ} {s s' : Stage τ ω} (hi : c.stages[i]? = some s)
    (hd : d.stages = c.stages) (hst : d.stopped = true)
    (hle : (Event.tasksTaken [e]).length + (if s'.isCleared then 1 else 0) ≤
      if s.isCleared then 1 else 0) :
    (d.withStage i s').stopped = true ∧
      (Event.tasksTaken [e]).length + (d.withStage i s').stages.countP Stage.isCleared ≤
        c.stages.countP Stage.isCleared := by
  have := countP_withStage hd s' hi
  exact ⟨hst, by omega⟩

/-- After the work has been stopped, a worker takes a task only if it was about to. -/
theorem Move.drain (hm : Move jobs c e c') (hst : c.stopped = true) :
    c'.stopped = true ∧ (Event.tasksTaken [e]).length + c'.stages.countP Stage.isCleared ≤
      c.stages.countP Stage.isCleared := by
  cases hm with
  | look hi => exact drain_withStage hi rfl hst (by simp [hst, Event.tasksTaken, Stage.isCleared])
  | leave hi hq => exact drain_withStage hi rfl hst (by simp [Event.tasksTaken, Stage.isCleared])
  | take hi hq => exact drain_withStage hi rfl hst (by simp [Event.tasksTaken, Stage.isCleared])
  | work hi hn => exact drain_withStage hi rfl hst (by simp [Event.tasksTaken, Stage.isCleared])
  | @ends i t job report world hi hn =>
    refine drain_withStage hi rfl hst ?_
    rcases report with _ | _ | _ <;> simp [Event.tasksTaken, Stage.afterStep, Stage.isCleared]
  | stop hi => exact drain_withStage hi rfl rfl (by simp [Event.tasksTaken, Stage.isCleared])
  | send hi hm => exact drain_withStage hi rfl hst (by simp [Event.tasksTaken, Stage.isCleared])
  | giveUp hi hm => exact drain_withStage hi rfl hst (by simp [Event.tasksTaken, Stage.isCleared])
  | hire hm => exact ⟨hst, by simp [Event.tasksTaken, Stage.isCleared]⟩
  | _ => exact ⟨hst, by simp [Event.tasksTaken, Crew.close, Crew.receive]⟩

theorem Runs.drain (h : Runs jobs c es c') (hst : c.stopped = true) :
    c'.stopped = true ∧ (Event.tasksTaken es).length + c'.stages.countP Stage.isCleared ≤
      c.stages.countP Stage.isCleared := by
  induction h with
  | nil => exact ⟨hst, by simp [Event.tasksTaken]⟩
  | snoc _ hc ih =>
    obtain ⟨hst', hle⟩ := ih
    obtain ⟨hst'', hle'⟩ := (move_of_step hc).drain hst'
    refine ⟨hst'', ?_⟩
    rw [Event.tasksTaken_append, List.length_append]
    omega

/-! ### What tasks come to -/

/-- Every report is one that the job of its task may come to. -/
structure Faithful (jobs : τ → Job ω) (es : List (Event τ)) (c : Crew τ ω) : Prop where
  holding : ∀ t j, .holding t j ∈ c.stages → ∀ r, j.MayEnd r → (jobs t).MayEnd r
  ended : ∀ t r, .ended t r ∈ es → (jobs t).MayEnd r

theorem Faithful.restage (h : Faithful jobs es c) {i : ℕ} {s' : Stage τ ω}
    (hd : d.stages = c.stages)
    (hs : ∀ t j, s' = .holding t j → ∀ r, j.MayEnd r → (jobs t).MayEnd r)
    (he : ∀ t r, e = .ended t r → (jobs t).MayEnd r) :
    Faithful jobs (es ++ [e]) (d.withStage i s') where
  holding := by
    intro t j hj
    rw [withStage_stages, hd] at hj
    rcases List.mem_or_eq_of_mem_set hj with hj | hj
    · exact h.holding t j hj
    · exact hs t j hj.symm
  ended := by
    intro t r ht
    rcases List.mem_append.1 ht with ht | ht
    · exact h.ended t r ht
    · exact he t r (List.mem_singleton.1 ht).symm

theorem Faithful.move (h : Faithful jobs es c) (hm : Move jobs c e c') :
    Faithful jobs (es ++ [e]) c' := by
  cases hm with
  | look hi =>
    refine h.restage rfl ?_ (by simp)
    split <;> simp
  | take hi hq =>
    refine h.restage rfl ?_ (by simp)
    rintro t j ⟨rfl, rfl⟩ r hr
    exact hr
  | work hi hn =>
    refine h.restage rfl ?_ (by simp)
    rintro t j ⟨rfl, rfl⟩ r hr
    exact h.holding _ _ (List.mem_of_getElem? hi) r (Job.mayEnd_step hn hr)
  | @ends i t job report world hi hn =>
    refine h.restage rfl ?_ ?_
    · rcases report with _ | _ | _ <;> simp [Stage.afterStep]
    · rintro t r ⟨rfl, rfl⟩
      exact h.holding _ _ (List.mem_of_getElem? hi) _ (Job.mayEnd_of_next hn)
  | leave => exact h.restage rfl (by simp) (by simp)
  | stop => exact h.restage rfl (by simp) (by simp)
  | send => exact h.restage rfl (by simp) (by simp)
  | giveUp => exact h.restage rfl (by simp) (by simp)
  | hire => exact ⟨by simpa using h.holding, by simpa using h.ended⟩
  | _ => exact ⟨h.holding, by simpa using h.ended⟩

theorem Runs.faithful {world : ω} (h : Runs jobs (start tasks workers world) es c) :
    Faithful jobs es c := by
  induction h with
  | nil => exact ⟨by simp [start], by simp⟩
  | snoc _ hc ih => exact ih.move (move_of_step hc)

/-! ### At the end -/

theorem held_eq_nil (h : ∀ s ∈ c.stages, s.isOver = true) : c.held = [] := by
  refine List.filterMap_eq_nil_iff.2 fun s hs => ?_
  have := h s hs
  cases s <;> simp_all [Stage.isOver, Stage.task?]

theorem unsent_eq_nil (h : ∀ s ∈ c.stages, s.isOver = true) : c.unsent = [] := by
  refine List.filterMap_eq_nil_iff.2 fun s hs => ?_
  have := h s hs
  cases s <;> simp_all [Stage.isOver, Stage.report?]

theorem workerCount_pos (asked count : ℕ) : 0 < workerCount asked count :=
  Nat.lt_of_lt_of_le Nat.one_pos (Nat.le_max_left _ _)

/-- When the crew has closed, every task taken has ended. -/
theorem Orderly.ended_perm (h : Orderly workers es c) (hl : Accounts tasks es c)
    {r : Except BatchError Summary} (hr : c.manager = .closed r) :
    (Event.tasksEnded es).Perm (Event.tasksTaken es) := by
  simpa [held_eq_nil (h.closed r hr).1] using hl.held

/-- When the crew has closed, every report made has been received. -/
theorem Orderly.received_perm (h : Orderly workers es c) (hl : Accounts tasks es c)
    {r : Except BatchError Summary} (hr : c.manager = .closed r) :
    (Event.reportsReceived es).Perm (Event.reportsMade es) := by
  obtain ⟨hover, hsent, -⟩ := h.closed r hr
  simpa [unsent_eq_nil hover, hsent] using hl.reported

/-- If no report is a failure, the crew leaves no task in the queue. -/
theorem Orderly.queue_eq_nil (h : Orderly workers es c) (hw : 0 < workers)
    {r : Except BatchError Summary} (hr : c.manager = .closed r)
    (hok : ∀ r ∈ Event.reportsMade es, r.isOk = true) : c.queue = [] := by
  have hlen : c.stages.length = workers := by simpa [hr, Manager.unhired] using h.hired
  obtain ⟨s, hs⟩ := List.exists_mem_of_length_pos (hlen ▸ hw)
  rcases h.left s hs ((h.closed r hr).1 s hs) with hst | hq
  · obtain ⟨fault, hf⟩ := h.raised hst
    cases hok _ hf
  · exact hq

/-- Without a lost worker, the result is the first failure received, or else the summary. -/
theorem Orderly.result_eq (h : Orderly workers es c) (hl : Accounts tasks es c)
    {r : Except BatchError Summary} (hr : c.manager = .closed r) :
    r = match (Event.reportsReceived es).findSome? failureOf? with
      | some fault => .error fault
      | none => .ok ((Event.reportsReceived es).foldl Summary.tally {}) := by
  have hlost : c.stages.any Stage.isLost = false := by
    simpa using h.unlost
  rw [(h.closed r hr).2.2, verdict, hlost, ← hl.failure, ← hl.summary]
  rfl

/-- The failure received first is that of a task. -/
theorem Accounts.exists_ended (hl : Accounts tasks es c) {fault : BatchError}
    (hf : (Event.reportsReceived es).findSome? failureOf? = some fault) :
    ∃ t, .ended t (some (.error fault)) ∈ es := by
  obtain ⟨report, hmem, hfault⟩ := List.exists_of_findSome?_eq_some hf
  obtain rfl := failureOf?_eq_some.1 hfault
  exact Event.mem_reportsMade.1
    (hl.reported.subset (List.mem_append_left _ (List.mem_append_left _ hmem)))

/-- When the crew has closed and no failure has been received, all tasks have succeeded. -/
theorem Orderly.all_succeeded (h : Orderly workers es c) (hl : Accounts tasks es c)
    (hw : 0 < workers) {r : Except BatchError Summary} (hr : c.manager = .closed r)
    (hf : (Event.reportsReceived es).findSome? failureOf? = none) :
    Event.tasksTaken es = tasks ∧ ∀ report ∈ Event.reportsMade es, report.isOk = true := by
  have hok : ∀ report ∈ Event.reportsMade es, report.isOk = true := fun report hmem =>
    failureOf?_eq_none.1
      (List.findSome?_eq_none_iff.1 hf _ ((h.received_perm hl hr).symm.subset hmem))
  exact ⟨by simpa [h.queue_eq_nil hw hr hok] using hl.taken, hok⟩

/-- Whoever moves when, as long as the manager can hire and no worker is lost: the tasks are taken
in order, and each of them is done once; after the work has been stopped, every worker but one takes
one more task at most; the crew comes to its end; and then each report has been received once, the
result is a summary of all tasks if they succeeded, and the first failure received otherwise. -/
theorem batch_does_each_task_once {world : ω} (h : Runs jobs (start tasks workers world) es c)
    (hs : Event.Smooth es) :
    (Event.tasksTaken es <+: tasks ∧
      (Event.tasksEnded es ++ c.held).Perm (Event.tasksTaken es) ∧
      ∀ t r, .ended t r ∈ es → (jobs t).MayEnd r) ∧
    (∀ es₁ es₂ c₁, es = es₁ ++ es₂ → Runs jobs (start tasks workers world) es₁ c₁ →
      Runs jobs c₁ es₂ c → c₁.stopped = true →
        (Event.tasksTaken es₂).length ≤ workerCount workers tasks.length - 1) ∧
    (es.length ≤ (start tasks workers world).weight jobs ∧
      ((∀ a, c.step jobs a = none) → ∃ r, c.manager = .closed r)) ∧
    ∀ r, c.manager = .closed r →
      (Event.tasksEnded es).Perm (Event.tasksTaken es) ∧
      (Event.reportsReceived es).Perm (Event.reportsMade es) ∧
      ((∃ s, r = .ok s) ↔
        (Event.tasksEnded es).Perm tasks ∧ ∀ report ∈ Event.reportsMade es, report.isOk = true) ∧
      (∀ s, r = .ok s →
        s.written = (Event.reportsMade es).countP Report.isWritten ∧
        s.existing = (Event.reportsMade es).countP Report.isExisting ∧
        s.skipped = (Event.reportsMade es).countP Report.isSkipped ∧
        s.written + s.existing + s.skipped = tasks.length) ∧
      ∀ fault, r = .error fault →
        (Event.reportsReceived es).findSome? failureOf? = some fault ∧
        ∃ t, .ended t (some (.error fault)) ∈ es := by
  obtain ⟨hl, ho⟩ := h.accounts_orderly hs
  refine ⟨⟨⟨_, hl.taken⟩, hl.held, h.faithful.ended⟩, ?_, ⟨?_, ?_⟩, ?_⟩
  · rintro es₁ es₂ c₁ rfl h₁ h₂ hst
    have hspare := ((h₁.accounts_orderly (Event.smooth_append.1 hs).1).2).spare hst
    have hdrain := (h₂.drain hst).2
    omega
  · have := h.length_add_weight_le
    omega
  · exact fun hstuck => exists_of_isClosed (closed_of_stuck hstuck)
  · intro r hr
    have hended := ho.ended_perm hl hr
    have hreceived := ho.received_perm hl hr
    have hresult := ho.result_eq hl hr
    refine ⟨hended, hreceived, ?_⟩
    cases hf : (Event.reportsReceived es).findSome? failureOf? with
    | some fault =>
      obtain rfl : r = .error fault := by simpa [hf] using hresult
      obtain ⟨t, ht⟩ := hl.exists_ended hf
      refine ⟨⟨?_, ?_⟩, ?_, ?_⟩
      · simp
      · rintro ⟨-, hok⟩
        cases hok _ (Event.mem_reportsMade.2 ⟨t, ht⟩)
      · simp
      · rintro fault ⟨rfl⟩
        exact ⟨rfl, t, ht⟩
    | none =>
      obtain rfl : r = .ok ((Event.reportsReceived es).foldl Summary.tally {}) := by
        simpa [hf] using hresult
      obtain ⟨htaken, hok⟩ := ho.all_succeeded hl (workerCount_pos _ _) hr hf
      have hcount : (Event.reportsMade es).length = tasks.length := by
        rw [Event.length_reportsMade hs, hended.length_eq, htaken]
      refine ⟨⟨fun _ => ⟨htaken ▸ hended, hok⟩, fun _ => ⟨_, rfl⟩⟩, ?_, by simp⟩
      rintro s ⟨rfl⟩
      simp only [foldl_tally, Nat.zero_add, hreceived.countP_eq, countP_outcomes hok, hcount,
        and_self]

/-- Of three tasks the first fails. The other worker has seen before that the work goes on, so it
takes the second task, and nobody takes the third. -/
theorem batch_does_each_task_once_after_failure :
    ∃ es c, Runs (fun t : ℕ => .last fun w =>
        (some (if t = 0 then .error .json else .ok (.written "b")), w)) (start [0, 1, 2] 2 ()) es c ∧
      Event.Smooth es ∧ c.manager = .closed (.error .json) ∧ Event.tasksTaken es = [0, 1] ∧
      (Event.tasksEnded es).Perm [0, 1] ∧
      (Event.reportsReceived es).findSome? failureOf? = some .json := by
  obtain ⟨c, hf, hm⟩ : ∃ c, follow? (fun t : ℕ => .last fun w =>
        (some (if t = 0 then .error .json else .ok (.written "b")), w)) (start [0, 1, 2] 2 ())
      [.manager none, .manager none, .manager none, .worker 0, .worker 1, .worker 0, .worker 0,
        .worker 0, .worker 1, .worker 1, .worker 1, .worker 1, .worker 0, .worker 0, .manager none,
        .manager none, .manager none] =
      some ([.other, .other, .other, .other, .other, .took 0, .ended 0 (some (.error .json)),
        .other, .took 1, .ended 1 (some (.ok (.written "b"))), .other, .other, .other, .other,
        .received (.ok (.written "b")), .received (.error .json), .other], c) ∧
      c.manager = .closed (.error .json) := ⟨_, rfl, rfl⟩
  have hrun := runs_of_follow? _ hf
  have hsmooth : Event.Smooth
      [.other, .other, .other, .other, .other, .took 0, .ended 0 (some (.error .json)), .other,
        .took 1, .ended 1 (some (.ok (.written "b"))), .other, .other, .other, .other,
        .received (.ok (.written "b")), .received (.error .json), .other] := by
    simp [Event.Smooth]
  have h := (batch_does_each_task_once hrun hsmooth).2.2.2 _ hm
  exact ⟨_, c, hrun, hsmooth, hm, rfl, h.1, (h.2.2.2.2 _ rfl).1⟩

end Crew
end Choropleth
