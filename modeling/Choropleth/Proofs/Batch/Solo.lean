import Choropleth.Proofs.Batch.Returning

/-!
# Crews of one worker

A crew with one worker does its tasks in turn. At every moment some of them have been done one after
the other, and at most one is in the middle of its steps; what this task will come to is certain
already. Once the worker is lost, nothing is done any more.

* `Job.Reaches`: a job that goes on for some steps without anybody else;
* `Crew.InTurn`: tasks that are done in turn, and succeed;
* `Crew.Solo`: a crew of one worker in the middle of its work;
* `Crew.Bereft`: a crew that has lost its only worker;
* `Crew.Runs.solo_or_bereft`: what becomes of a crew of one worker;
* `Crew.inTurn_of_closed`, `Crew.closed_of_inTurn`: how it ends.
-/

namespace Choropleth

/-! ### Jobs without others -/

/-- A job that goes on for some steps, with what is left of it and of what it works on. -/
inductive Job.Reaches {ω : Type} (j : Job ω) (w : ω) : Job ω → ω → Prop
  | refl : Reaches j w j w
  | next {j' j'' : Job ω} {w' w'' : ω} (h : Reaches j w j' w')
    (hn : j'.next w' = (.inl j'', w'')) : Reaches j w j'' w''

namespace Job

variable {ω : Type} {j j' : Job ω} {w w' w'' : ω} {r : Option Report}

theorem finish_of_next (h : j.next w = (.inl j', w')) : j.finish w = j'.finish w' := by
  cases j with
  | last act => simp [next] at h
  | step act rest =>
    rw [finish]
    simp only [next] at h
    split at h
    · simp at h
    · cases h
      rfl

theorem finish_of_ends (h : j.next w = (.inr r, w')) : j.finish w = (r, w') := by
  cases j with
  | last act =>
    obtain ⟨rfl, rfl⟩ : (act w).1 = r ∧ (act w).2 = w' := by simpa [next] using h
    rfl
  | step act rest =>
    rw [finish]
    simp only [next] at h
    split at h
    · cases h
      rfl
    · simp at h

/-- In the middle of a job it is certain what it comes to. -/
theorem Reaches.finish_eq (h : j.Reaches w j' w') : j.finish w = j'.finish w' := by
  induction h with
  | refl => rfl
  | next _ hn ih => rw [ih, finish_of_next hn]

end Job

namespace Stage

variable {τ ω : Type}

/-- The worker holds no task, and reports no failure. -/
def isIdle : Stage τ ω → Bool
  | ready => true
  | cleared => true
  | reporting (.ok _) => true
  | gone => true
  | _ => false

/-- The worker holds no task, and it will take none if the work has been stopped. -/
def isSpent : Stage τ ω → Bool
  | ready => true
  | reporting _ => true
  | gone => true
  | _ => false

end Stage

namespace Crew

variable {τ ω : Type} {jobs : τ → Job ω} {c c' : Crew τ ω} {tasks more rest : List τ}
  {es : List (Event τ)} {e : Event τ} {w w' w'' w₀ : ω}

/-! ### Tasks in turn -/

/-- Tasks are done one after the other, and all of them succeed. -/
inductive InTurn (jobs : τ → Job ω) : List τ → ω → ω → Prop
  | nil (w : ω) : InTurn jobs [] w w
  | cons {k : τ} {ks : List τ} {o : TaskOutcome} {w w' w'' : ω}
    (h : (jobs k).finish w = (some (.ok o), w')) (hs : InTurn jobs ks w' w'') :
    InTurn jobs (k :: ks) w w''

theorem inTurn_cons {k : τ} :
    InTurn jobs (k :: tasks) w w'' ↔
      ∃ o w', (jobs k).finish w = (some (.ok o), w') ∧ InTurn jobs tasks w' w'' := by
  constructor
  · rintro (_ | ⟨h, hs⟩)
    exact ⟨_, _, h, hs⟩
  · rintro ⟨o, w', h, hs⟩
    exact .cons h hs

theorem inTurn_append :
    InTurn jobs (tasks ++ more) w w'' ↔
      ∃ w', InTurn jobs tasks w w' ∧ InTurn jobs more w' w'' := by
  induction tasks generalizing w with
  | nil =>
    refine ⟨fun h => ⟨w, .nil w, h⟩, ?_⟩
    rintro ⟨w', ⟨⟩, h⟩
    exact h
  | cons k tasks ih =>
    simp only [List.cons_append, inTurn_cons, ih]
    constructor
    · rintro ⟨o, w₁, h, w', hs, hm⟩
      exact ⟨w', ⟨o, w₁, h, hs⟩, hm⟩
    · rintro ⟨w', ⟨o, w₁, h, hs⟩, hm⟩
      exact ⟨o, w₁, h, w', hs, hm⟩

theorem InTurn.eq (h : InTurn jobs tasks w w') (h' : InTurn jobs tasks w w'') : w' = w'' := by
  induction h with
  | nil w =>
    cases h'
    rfl
  | cons h _ ih =>
    obtain ⟨o, w₁, h₁, hs⟩ := inTurn_cons.1 h'
    cases h.symm.trans h₁
    exact ih hs

/-- A crew of one worker in the middle of its work: between two tasks, in the middle of one, or
after one that has failed. -/
inductive Solo (jobs : τ → Job ω) (tasks : List τ) (w₀ : ω) (es : List (Event τ)) (c : Crew τ ω) :
    Prop
  | idle {done : List τ} (split : tasks = done ++ c.queue) (ran : InTurn jobs done w₀ c.world)
    (fine : ∀ r ∈ Event.reportsMade es, r.isOk = true) (running : c.stopped = false)
    (free : ∀ s ∈ c.stages, s.isIdle = true)
  | busy {done : List τ} {k : τ} {j : Job ω} {w : ω} (split : tasks = done ++ k :: c.queue)
    (ran : InTurn jobs done w₀ w) (fine : ∀ r ∈ Event.reportsMade es, r.isOk = true)
    (running : c.stopped = false) (holds : c.stages = [.holding k j])
    (reached : (jobs k).Reaches w j c.world)
  | failed {done : List τ} {k : τ} {w : ω} {fault : BatchError}
    (split : tasks = done ++ k :: c.queue) (ran : InTurn jobs done w₀ w)
    (fails : (jobs k).finish w = (some (.error fault), c.world))
    (made : .error fault ∈ Event.reportsMade es)
    (stays : c.stages = [.stopping fault] ∨
      c.stopped = true ∧ ∀ s ∈ c.stages, s.isSpent = true)

theorem eq_singleton_of_getElem? {α : Type} {l : List α} {i : ℕ} {a : α} (h : l.length ≤ 1)
    (hi : l[i]? = some a) : l = [a] ∧ i = 0 := by
  obtain ⟨hlt, rfl⟩ := List.getElem?_eq_some_iff.1 hi
  obtain rfl : i = 0 := by omega
  obtain ⟨b, rfl⟩ := List.length_eq_one_iff.1 (by omega : l.length = 1)
  exact ⟨rfl, rfl⟩

/-- A move of an idle worker to another idle stage, or of the manager. -/
theorem Solo.quiet_idle {done : List τ} (split : tasks = done ++ c.queue)
    (ran : InTurn jobs done w₀ c.world) (fine : ∀ r ∈ Event.reportsMade es, r.isOk = true)
    (running : c.stopped = false) (he : Event.reportsMade [e] = []) (hq : c'.queue = c.queue)
    (hw : c'.world = c.world) (hst : c'.stopped = c.stopped)
    (hfree : ∀ s ∈ c'.stages, s.isIdle = true) : Solo jobs tasks w₀ (es ++ [e]) c' := by
  refine .idle (hq ▸ split) (hw ▸ ran) ?_ (hst ▸ running) hfree
  simpa [he] using fine

theorem isIdle_set {i : ℕ} {s' : Stage τ ω} (hfree : ∀ s ∈ c.stages, s.isIdle = true)
    (hs' : s'.isIdle = true) : ∀ s ∈ (c.withStage i s').stages, s.isIdle = true := by
  intro s hs
  rcases List.mem_or_eq_of_mem_set hs with hs | rfl
  · exact hfree s hs
  · exact hs'

theorem Solo.move_idle {done : List τ} (split : tasks = done ++ c.queue)
    (ran : InTurn jobs done w₀ c.world) (fine : ∀ r ∈ Event.reportsMade es, r.isOk = true)
    (running : c.stopped = false) (free : ∀ s ∈ c.stages, s.isIdle = true)
    (hlength : c.stages.length ≤ 1) (hm : Move jobs c e c') (hs : Event.Smooth [e]) :
    Solo jobs tasks w₀ (es ++ [e]) c' := by
  have hstage {i : ℕ} {s : Stage τ ω} (hi : c.stages[i]? = some s) : s.isIdle = true :=
    free s (List.mem_of_getElem? hi)
  cases hm with
  | look hi =>
    refine .quiet_idle split ran fine running rfl rfl rfl rfl (isIdle_set free ?_)
    rw [running]
    rfl
  | leave hi hq => exact .quiet_idle split ran fine running rfl rfl rfl rfl (isIdle_set free rfl)
  | @take i k rest hi hq =>
    obtain ⟨hstages, rfl⟩ := eq_singleton_of_getElem? hlength hi
    exact .busy (hq ▸ split) ran (by simpa [Event.reportsMade] using fine) running
      (by simp [hstages]) .refl
  | work hi hn => cases hstage hi
  | ends hi hn => cases hstage hi
  | stop hi => cases hstage hi
  | send hi hm => exact .quiet_idle split ran fine running rfl rfl rfl rfl (isIdle_set free rfl)
  | giveUp hi hm => exact .quiet_idle split ran fine running rfl rfl rfl rfl (isIdle_set free rfl)
  | hire hm =>
    exact .quiet_idle split ran fine running rfl rfl rfl rfl
      (by simpa [or_imp, forall_and, Stage.isIdle] using free)
  | fail hm => exact hs.not_obstructed.elim
  | _ => exact .quiet_idle split ran fine running rfl rfl rfl rfl free

theorem Solo.move_busy {done : List τ} {k : τ} {j : Job ω} (split : tasks = done ++ k :: c.queue)
    (ran : InTurn jobs done w₀ w) (fine : ∀ r ∈ Event.reportsMade es, r.isOk = true)
    (running : c.stopped = false) (holds : c.stages = [.holding k j])
    (reached : (jobs k).Reaches w j c.world) (hhired : c.stages.length + c.manager.unhired ≤ 1)
    (hm : Move jobs c e c') (hs : Event.Smooth [e]) : Solo jobs tasks w₀ (es ++ [e]) c' := by
  have hstage {i : ℕ} {s : Stage τ ω} (hi : c.stages[i]? = some s) : i = 0 ∧ s = .holding k j := by
    obtain ⟨hstages, rfl⟩ := eq_singleton_of_getElem? (by omega) hi
    rw [holds] at hstages
    exact ⟨rfl, (List.singleton_injective hstages).symm⟩
  have hfine : Event.reportsMade [e] = [] →
      ∀ r ∈ Event.reportsMade (es ++ [e]), r.isOk = true := by
    intro he
    simpa [he] using fine
  cases hm with
  | @work i t job job' world hi hn =>
    obtain ⟨rfl, hs⟩ := hstage hi
    cases hs
    exact .busy split ran (hfine rfl) running (by simp [holds]) (reached.next hn)
  | @ends i t job report world hi hn =>
    obtain ⟨rfl, hstages⟩ := hstage hi
    cases hstages
    have hfinish := reached.finish_eq.trans (Job.finish_of_ends hn)
    obtain ⟨r, rfl⟩ := hs.exists_report
    rcases r with fault | o
    · exact .failed split ran hfinish (by simp [Event.reportsMade])
        (.inl (by simp [holds, Stage.afterStep]))
    · rw [List.append_cons] at split
      refine .idle split (inTurn_append.2 ⟨w, ran, .cons hfinish (.nil _)⟩) ?_ running ?_
      · simp only [Event.reportsMade_append, List.mem_append, or_imp, forall_and]
        exact ⟨fine, by simp [Event.reportsMade, Except.isOk, Except.toBool]⟩
      · simp [holds, Stage.afterStep, Stage.isIdle]
  | hire hm =>
    rw [holds, hm] at hhired
    simp [Manager.unhired] at hhired
  | fail hm => exact hs.not_obstructed.elim
  | listen hm => exact .busy split ran (hfine rfl) running holds reached
  | receive hm hs => exact .busy split ran (hfine rfl) running holds reached
  | close hm hs ho => exact .busy split ran (hfine rfl) running holds reached
  | look hi => cases (hstage hi).2
  | leave hi hq => cases (hstage hi).2
  | take hi hq => cases (hstage hi).2
  | stop hi => cases (hstage hi).2
  | send hi hm => cases (hstage hi).2
  | giveUp hi hm => cases (hstage hi).2

theorem Solo.move_failed {done : List τ} {k : τ} {fault : BatchError}
    (split : tasks = done ++ k :: c.queue) (ran : InTurn jobs done w₀ w)
    (fails : (jobs k).finish w = (some (.error fault), c.world))
    (made : .error fault ∈ Event.reportsMade es)
    (stays : c.stages = [.stopping fault] ∨
      c.stopped = true ∧ ∀ s ∈ c.stages, s.isSpent = true)
    (hhired : c.stages.length + c.manager.unhired ≤ 1) (hm : Move jobs c e c')
    (hs : Event.Smooth [e]) : Solo jobs tasks w₀ (es ++ [e]) c' := by
  have hmade : .error fault ∈ Event.reportsMade (es ++ [e]) := by simp [made]
  have hstage {i : ℕ} {s : Stage τ ω} (hi : c.stages[i]? = some s) :
      c.stages = [s] ∧ i = 0 ∧ (s = .stopping fault ∨ c.stopped = true ∧ s.isSpent = true) := by
    obtain ⟨hstages, rfl⟩ := eq_singleton_of_getElem? (by omega) hi
    refine ⟨hstages, rfl, ?_⟩
    simpa [hstages] using stays
  cases hm with
  | look hi =>
    obtain ⟨hstages, rfl, hcase | ⟨hst, -⟩⟩ := hstage hi
    · cases hcase
    · exact .failed split ran fails hmade (.inr ⟨hst, by simp [hstages, hst, Stage.isSpent]⟩)
  | stop hi =>
    obtain ⟨hstages, rfl, -⟩ := hstage hi
    exact .failed split ran fails hmade (.inr ⟨rfl, by simp [hstages, Stage.isSpent]⟩)
  | send hi hm =>
    obtain ⟨hstages, rfl, hcase | ⟨hst, -⟩⟩ := hstage hi
    · cases hcase
    · exact .failed split ran fails hmade (.inr ⟨hst, by simp [hstages, Stage.isSpent]⟩)
  | giveUp hi hm =>
    obtain ⟨hstages, rfl, hcase | ⟨hst, -⟩⟩ := hstage hi
    · cases hcase
    · exact .failed split ran fails hmade (.inr ⟨hst, by simp [hstages, Stage.isSpent]⟩)
  | hire hm =>
    rcases stays with hstages | ⟨hst, hspent⟩
    · rw [hstages, hm] at hhired
      simp [Manager.unhired] at hhired
    · exact .failed split ran fails hmade
        (.inr ⟨hst, by simpa [or_imp, forall_and, Stage.isSpent] using hspent⟩)
  | fail hm => exact hs.not_obstructed.elim
  | listen hm => exact .failed split ran fails hmade stays
  | receive hm hs => exact .failed split ran fails hmade stays
  | close hm hs ho => exact .failed split ran fails hmade stays
  | leave hi hq => obtain ⟨-, -, hcase | ⟨-, hcase⟩⟩ := hstage hi <;> cases hcase
  | take hi hq => obtain ⟨-, -, hcase | ⟨-, hcase⟩⟩ := hstage hi <;> cases hcase
  | work hi hn => obtain ⟨-, -, hcase | ⟨-, hcase⟩⟩ := hstage hi <;> cases hcase
  | ends hi hn => obtain ⟨-, -, hcase | ⟨-, hcase⟩⟩ := hstage hi <;> cases hcase

theorem Solo.move (h : Solo jobs tasks w₀ es c) (hhired : c.stages.length + c.manager.unhired ≤ 1)
    (hm : Move jobs c e c') (hs : Event.Smooth [e]) : Solo jobs tasks w₀ (es ++ [e]) c' := by
  cases h with
  | idle split ran fine running free =>
    exact .move_idle split ran fine running free (by omega) hm hs
  | busy split ran fine running holds reached =>
    exact .move_busy split ran fine running holds reached hhired hm hs
  | failed split ran fails made stays =>
    exact .move_failed split ran fails made stays hhired hm hs

/-- A crew of one worker that was lost in the middle of a task. -/
inductive Bereft (jobs : τ → Job ω) (tasks : List τ) (w₀ : ω) (c : Crew τ ω) : Prop
  | intro {done : List τ} {k : τ} {w : ω} (split : tasks = done ++ k :: c.queue)
    (ran : InTurn jobs done w₀ w) (loses : (jobs k).finish w = (none, c.world))
    (stays : c.stages = [.lost]) (unsettled : ∀ summary, c.manager ≠ .closed (.ok summary))

theorem Bereft.move (h : Bereft jobs tasks w₀ c) (hhired : c.stages.length + c.manager.unhired ≤ 1)
    (hm : Move jobs c e c') : Bereft jobs tasks w₀ c' := by
  obtain ⟨split, ran, loses, stays, unsettled⟩ := h
  have hstage {i : ℕ} {s : Stage τ ω} (hi : c.stages[i]? = some s) : s = .lost := by
    obtain ⟨hstages, -⟩ := eq_singleton_of_getElem? (by omega) hi
    exact List.singleton_injective (hstages.symm.trans stays)
  cases hm with
  | listen hm => exact ⟨split, ran, loses, stays, by simp⟩
  | hire hm =>
    rw [stays, hm] at hhired
    simp [Manager.unhired] at hhired
  | fail hm => exact ⟨split, ran, loses, stays, by simp⟩
  | receive hm hs => exact ⟨split, ran, loses, stays, unsettled⟩
  | close hm hs ho =>
    exact ⟨split, ran, loses, stays, by simp [Crew.close, verdict, stays, Stage.isLost]⟩
  | look hi => cases hstage hi
  | leave hi hq => cases hstage hi
  | take hi hq => cases hstage hi
  | work hi hn => cases hstage hi
  | ends hi hn => cases hstage hi
  | stop hi => cases hstage hi
  | send hi hm => cases hstage hi
  | giveUp hi hm => cases hstage hi

end Crew
end Choropleth
