import Choropleth.Proofs.Batch.Interleaving

/-!
# What goes on after a batch has returned

A batch whose manager could hire everybody returns when all workers have gone, so that nothing
happens afterwards. A manager that cannot hire returns at once, and those whom it has hired before
go on: each of them ends the task in its hands, or takes one more.

* `Crew.Attended`: who may be left when the manager has stopped listening;
* `Crew.eq_nil_of_runs`: nothing happens in a crew at rest;
* `Move.part`, `Runs.part`: what workers still take after the return;
* `Crew.batch_waits_for_workers`: when nothing happens after the return of a batch;
* `Crew.batch_writes_after_return`: a file that is written after it.
-/

namespace Choropleth

/-- The worker may still take a task. -/
def Stage.isFree {τ ω : Type} : Stage τ ω → Bool
  | ready => true
  | cleared => true
  | _ => false

namespace Crew

variable {τ ω : Type} {jobs : τ → Job ω} {c c' d : Crew τ ω} {tasks : List τ} {workers : ℕ}
  {es fs : List (Event τ)} {e : Event τ}

/-- A manager that cannot hire returns its obstacle, with a worker too few; any other manager
returns when everybody has left. -/
structure Attended (workers : ℕ) (es : List (Event τ)) (c : Crew τ ω) : Prop where
  hired : c.stages.length + c.manager.unhired ≤ workers
  obstructed : ∀ fault, .obstructed fault ∈ es →
    c.manager = .closed (.error fault) ∧ c.stages.length < workers
  rest : c.isClosed = true → (∀ fault, .obstructed fault ∉ es) → ∀ s ∈ c.stages, s.isOver = true

theorem attended_start (tasks : List τ) (workers : ℕ) (world : ω) :
    Attended (workerCount workers tasks.length) [] (start tasks workers world) where
  hired := by simp [start, Manager.unhired]
  obstructed := by simp
  rest := by simp [start]

/-- A move of a worker that was not over. -/
theorem Attended.restage (h : Attended workers es c) {i : ℕ} {s : Stage τ ω} (d : Crew τ ω)
    (s' : Stage τ ω) (hi : c.stages[i]? = some s) (ho : s.isOver = false) (hd : d.stages = c.stages)
    (hm : d.manager = c.manager) (he : ∀ fault, e ≠ .obstructed fault) :
    Attended workers (es ++ [e]) (d.withStage i s') where
  hired := by simpa [hd, hm] using h.hired
  obstructed := by
    intro fault hf
    rcases List.mem_append.1 hf with hf | hf
    · simpa [hd, hm] using h.obstructed fault hf
    · exact absurd (List.mem_singleton.1 hf).symm (he fault)
  rest := by
    intro hc hf
    have hclosed : c.isClosed = true := by simpa [isClosed, hm] using hc
    have := h.rest hclosed (fun fault hmem => hf fault (List.mem_append_left _ hmem)) s
      (List.mem_of_getElem? hi)
    rw [ho] at this
    cases this

/-- As long as the manager listens or hires, it has met no obstacle. -/
theorem Attended.not_obstructed (h : Attended workers es c) (hc : c.isClosed = false)
    (fault : BatchError) : .obstructed fault ∉ es := by
  intro hf
  rw [isClosed, (h.obstructed fault hf).1] at hc
  cases hc

/-- A move of a manager that goes on. -/
theorem Attended.manage (h : Attended workers es c) (hc : c.isClosed = false)
    (hd : d.isClosed = false) (hhired : d.stages.length + d.manager.unhired ≤ workers)
    (he : ∀ fault, e ≠ .obstructed fault) : Attended workers (es ++ [e]) d where
  hired := hhired
  obstructed := by
    intro fault hf
    rcases List.mem_append.1 hf with hf | hf
    · exact absurd hf (h.not_obstructed hc fault)
    · exact absurd (List.mem_singleton.1 hf).symm (he fault)
  rest := by simp [hd]

theorem Attended.move (h : Attended workers es c) (hm : Move jobs c e c') :
    Attended workers (es ++ [e]) c' := by
  cases hm with
  | look hi => exact h.restage c _ hi rfl rfl rfl (by simp)
  | leave hi hq => exact h.restage c _ hi rfl rfl rfl (by simp)
  | take hi hq => exact h.restage { c with queue := _ } _ hi rfl rfl rfl (by simp)
  | work hi hn => exact h.restage { c with world := _ } _ hi rfl rfl rfl (by simp)
  | ends hi hn => exact h.restage { c with world := _ } _ hi rfl rfl rfl (by simp)
  | stop hi => exact h.restage { c with stopped := true } _ hi rfl rfl rfl (by simp)
  | send hi hm => exact h.restage { c with sent := _ } _ hi rfl rfl rfl (by simp)
  | giveUp hi hm => exact h.restage c _ hi rfl rfl rfl (by simp)
  | listen hm =>
    refine h.manage (by simp [isClosed, hm]) rfl ?_ (by simp)
    simpa [hm, Manager.unhired] using h.hired
  | hire hm =>
    refine h.manage (by simp [isClosed, hm]) rfl ?_ (by simp)
    have := h.hired
    simp only [hm, Manager.unhired, List.length_append, List.length_singleton] at this ⊢
    omega
  | @fail n fault hm =>
    have hhired := h.hired
    rw [hm, Manager.unhired] at hhired
    refine ⟨?_, fun fault' hf => ?_, fun _ hf => ?_⟩
    · show c.stages.length + 0 ≤ workers
      omega
    · rcases List.mem_append.1 hf with hf | hf
      · exact absurd hf (h.not_obstructed (by simp [isClosed, hm]) fault')
      · cases List.mem_singleton.1 hf
        exact ⟨rfl, by show c.stages.length < workers; omega⟩
    · exact absurd (List.mem_append_right es (List.mem_singleton_self _)) (hf fault)
  | receive hm hs =>
    refine h.manage (by simp [isClosed, hm]) (by simp [isClosed, receive, hm]) ?_ (by simp)
    simpa [receive] using h.hired
  | close hm hs ho =>
    refine ⟨?_, fun fault hf => ?_, fun _ _ => List.all_eq_true.1 ho⟩
    · simpa [hm, Crew.close, Manager.unhired] using h.hired
    · rcases List.mem_append.1 hf with hf | hf
      · exact absurd hf (h.not_obstructed (by simp [isClosed, hm]) fault)
      · cases List.mem_singleton.1 hf

theorem Runs.attended {world : ω} (h : Runs jobs (start tasks workers world) es c) :
    Attended (workerCount workers tasks.length) es c := by
  induction h with
  | nil => exact attended_start _ _ _
  | snoc _ hs ih => exact ih.move (move_of_step hs)

/-! ### After the return -/

/-- Nothing happens in a crew that has closed and in which everybody has left. -/
theorem eq_nil_of_runs (hc : c.isClosed = true) (ho : ∀ s ∈ c.stages, s.isOver = true)
    (h : Runs jobs c fs d) : fs = [] := by
  have hstuck : ∀ a, c.step jobs a = none := by
    obtain ⟨r, hr⟩ := exists_of_isClosed hc
    rintro (obstacle | i)
    · simp [step, managerMove, hr]
    · rw [step, Option.bind_eq_none_iff]
      intro s hs
      have := ho s (List.mem_of_getElem? hs)
      cases s <;> first | rfl | cases this
  induction h with
  | nil => rfl
  | @snoc fs c' c'' a h hs ih =>
    cases h with
    | nil => simp [hstuck a] at hs
    | snoc => simp at ih

/-- A move of a worker that takes a task only if it was free. -/
theorem part_withStage {i : ℕ} {s s' : Stage τ ω} (d : Crew τ ω) (hi : c.stages[i]? = some s)
    (hd : d.stages = c.stages)
    (hle : (Event.tasksTaken [e]).length + (if s'.isFree then 1 else 0) ≤
      if s.isFree then 1 else 0) :
    (Event.tasksTaken [e]).length + (d.withStage i s').stages.countP Stage.isFree ≤
      c.stages.countP Stage.isFree := by
  obtain ⟨hlt, rfl⟩ := List.getElem?_eq_some_iff.1 hi
  have hpos : c.stages[i].isFree = true → 0 < c.stages.countP Stage.isFree := fun h =>
    List.countP_pos_iff.2 ⟨_, List.getElem_mem hlt, h⟩
  rw [withStage_stages, hd, List.countP_set hlt]
  by_cases hs : c.stages[i].isFree = true
  · have := hpos hs
    rw [if_pos hs] at hle ⊢
    omega
  · rw [if_neg hs] at hle ⊢
    omega

/-- After the return, a worker that ends a task takes no other. -/
theorem Move.part (hm : Move jobs c e c') (hc : c.isClosed = true) :
    c'.isClosed = true ∧ (Event.tasksTaken [e]).length + c'.stages.countP Stage.isFree ≤
      c.stages.countP Stage.isFree := by
  cases hm with
  | look hi =>
    refine ⟨hc, part_withStage c hi rfl ?_⟩
    split <;> simp [Event.tasksTaken, Stage.isFree]
  | leave hi hq => exact ⟨hc, part_withStage c hi rfl (by simp [Event.tasksTaken, Stage.isFree])⟩
  | take hi hq =>
    exact ⟨hc, part_withStage { c with queue := _ } hi rfl
      (by simp [Event.tasksTaken, Stage.isFree])⟩
  | work hi hn =>
    exact ⟨hc, part_withStage { c with world := _ } hi rfl
      (by simp [Event.tasksTaken, Stage.isFree])⟩
  | @ends i t job report world hi hn =>
    refine ⟨hc, part_withStage { c with world } hi rfl ?_⟩
    rcases report with _ | _ | _ <;> simp [Event.tasksTaken, Stage.afterStep, Stage.isFree]
  | stop hi =>
    exact ⟨hc, part_withStage { c with stopped := true } hi rfl
      (by simp [Event.tasksTaken, Stage.isFree])⟩
  | send hi hm => simp [hm] at hc
  | giveUp hi hm => exact ⟨hc, part_withStage c hi rfl (by simp [Event.tasksTaken, Stage.isFree])⟩
  | listen hm => simp [isClosed, hm] at hc
  | hire hm => simp [isClosed, hm] at hc
  | fail hm => simp [isClosed, hm] at hc
  | receive hm hs => simp [isClosed, hm] at hc
  | close hm hs ho => simp [isClosed, hm] at hc

theorem Runs.part (h : Runs jobs c fs d) (hc : c.isClosed = true) :
    d.isClosed = true ∧ (Event.tasksTaken fs).length + d.stages.countP Stage.isFree ≤
      c.stages.countP Stage.isFree := by
  induction h with
  | nil => exact ⟨hc, by simp [Event.tasksTaken]⟩
  | snoc _ hs ih =>
    obtain ⟨hc', hle⟩ := ih
    obtain ⟨hc'', hle'⟩ := (move_of_step hs).part hc'
    refine ⟨hc'', ?_⟩
    rw [Event.tasksTaken_append, List.length_append]
    omega

/-- With two workers to hire, the manager can return while the first of them is about to take a
task. -/
theorem exists_taken_after_return (jobs : τ → Job ω) (tasks : List τ) (workers : ℕ) (world : ω)
    (h : 2 ≤ workerCount workers tasks.length) :
    ∃ es c fs d, Runs jobs (start tasks workers world) es c ∧ c.isClosed = true ∧
      Runs jobs c fs d ∧ Event.tasksTaken fs ≠ [] := by
  obtain ⟨n, hn⟩ := Nat.exists_eq_add_of_le' h
  obtain ⟨t, rest, rfl⟩ : ∃ t rest, tasks = t :: rest := by
    cases tasks with
    | nil => simp [workerCount] at h
    | cons t rest => exact ⟨t, rest, rfl⟩
  have hreturn : ∃ es c, (start (t :: rest) workers world).follow? jobs
      [.manager none, .manager (some .workerLost)] = some (es, c) ∧ c.stages = [.ready] ∧
      c.stopped = false ∧ c.queue = t :: rest ∧ c.isClosed = true := by
    rw [List.length_cons] at hn
    simp [follow?, step, managerMove, start, hn, isClosed]
  obtain ⟨es, c, hes, hstages, hstopped, hqueue, hclosed⟩ := hreturn
  have hafter : ∃ fs d, c.follow? jobs [.worker 0, .worker 0] = some (fs, d) ∧
      Event.tasksTaken fs ≠ [] := by
    simp [follow?, step, workerMove, hstages, hstopped, hqueue, withStage, event, workerEvent,
      Event.tasksTaken]
  obtain ⟨fs, d, hfs, htaken⟩ := hafter
  exact ⟨es, c, fs, d, runs_of_follow? _ hes, hclosed, runs_of_follow? _ hfs, htaken⟩

/-- **When a batch waits for its workers.** If the manager could hire whenever it tried, nothing
happens after the batch has returned, whether tasks succeeded, failed or lost their workers. If it
could not, the batch returns the obstacle at once, and afterwards every worker hired before takes
one more task at most. So no task is taken or ended after the return, however workers and manager
take turns, if and only if there is a single worker to hire. -/
theorem batch_waits_for_workers (jobs : τ → Job ω) (tasks : List τ) (workers : ℕ) (world : ω) :
    (∀ es c, Runs jobs (start tasks workers world) es c → c.isClosed = true →
      (∀ fault, .obstructed fault ∉ es) → ∀ fs d, Runs jobs c fs d → fs = []) ∧
    (∀ es c fault, Runs jobs (start tasks workers world) es c → .obstructed fault ∈ es →
      c.manager = .closed (.error fault) ∧ ∀ fs d, Runs jobs c fs d →
        (Event.tasksTaken fs).length ≤ workerCount workers tasks.length - 1) ∧
    ((∀ es c, Runs jobs (start tasks workers world) es c → c.isClosed = true →
      ∀ fs d, Runs jobs c fs d → Event.tasksTaken fs = [] ∧ Event.tasksEnded fs = []) ↔
        workerCount workers tasks.length = 1) := by
  refine ⟨fun es c h hc hf fs d hd => eq_nil_of_runs hc (h.attended.rest hc hf) hd,
    fun es c fault h hf => ?_, fun hall => ?_, fun hone es c h hc fs d hd => ?_⟩
  · obtain ⟨hm, hlt⟩ := h.attended.obstructed fault hf
    refine ⟨hm, fun fs d hd => ?_⟩
    have hpart := (hd.part (by simp [isClosed, hm])).2
    have := c.stages.countP_le_length (p := Stage.isFree)
    omega
  · by_contra hne
    have hpos := workerCount_pos workers tasks.length
    obtain ⟨es, c, fs, d, h, hc, hd, htaken⟩ :=
      exists_taken_after_return jobs tasks workers world (by omega)
    exact htaken (hall es c h hc fs d hd).1
  · have hrest : ∀ s ∈ c.stages, s.isOver = true := by
      by_cases hf : ∃ fault, .obstructed fault ∈ es
      · obtain ⟨fault, hf⟩ := hf
        obtain ⟨-, hlt⟩ := h.attended.obstructed fault hf
        have hnil : c.stages = [] := List.length_eq_zero_iff.1 (by omega)
        simp [hnil]
      · exact h.attended.rest hc fun fault hmem => hf ⟨fault, hmem⟩
    rw [eq_nil_of_runs hc hrest hd]
    exact ⟨rfl, rfl⟩

/-- Two workers are to be hired for two breaks files, and there is no connection for the second one.
The batch returns, and then the first worker writes a file. -/
theorem batch_writes_after_return :
    ∃ es c fs d, Runs (fun k : BreaksTask => k.job { directory := "out" } {})
        (start (breaksTasks [.district] ["QS101EW0002", "QS101EW0003"]) 2 .withOutput) es c ∧
      c.manager = .closed (.error (.query (.store "no connection"))) ∧
      Runs (fun k : BreaksTask => k.job { directory := "out" } {}) c fs d ∧
      c.world.isThere "out/breaks/LAD/QS101EW0002.json" = false ∧
      d.world.isThere "out/breaks/LAD/QS101EW0002.json" = true := by
  have hruns : ((start (breaksTasks [.district] ["QS101EW0002", "QS101EW0003"]) 2
      .withOutput).follow? (fun k : BreaksTask => k.job { directory := "out" } {})
        [.manager none, .manager (some (.query (.store "no connection")))]).any (fun p =>
      p.2.manager = .closed (.error (.query (.store "no connection"))) &&
      !p.2.world.isThere "out/breaks/LAD/QS101EW0002.json" &&
      (p.2.follow? (fun k : BreaksTask => k.job { directory := "out" } {})
        (List.replicate 8 (.worker 0))).any fun q =>
          q.2.world.isThere "out/breaks/LAD/QS101EW0002.json") = true := by decide +kernel
  obtain ⟨⟨es, c⟩, hes, hc⟩ := (Option.any_eq_true _ _).1 hruns
  simp only [Bool.and_eq_true, decide_eq_true_eq, Bool.not_eq_true', Option.any_eq_true] at hc
  obtain ⟨⟨hm, hbefore⟩, ⟨fs, d⟩, hfs, hafter⟩ := hc
  exact ⟨es, c, fs, d, runs_of_follow? _ hes, hm, runs_of_follow? _ hfs, hbefore, hafter⟩

end Crew
end Choropleth
