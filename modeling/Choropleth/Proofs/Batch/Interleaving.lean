import Choropleth.Proofs.Batch.BreaksFiles
import Choropleth.Proofs.Batch.Endings

/-!
# Interleaved workers on files

Several workers may do the steps of their tasks in any order. A file is always absent or complete,
and a worker that is alone with its task does not fail.

* `Crew.Accounts.two_le_count`: two workers hold the same task only if it is listed twice;
* `BreaksTask.Alone`: no other worker ever holds the task;
* `BreaksTask.Sound`: what holds at every moment of a batch;
* `breaks_batch_keeps_files_complete`: what a batch of breaks does, whoever moves when.
-/

namespace Choropleth

/-! ### Workers with the same task -/

namespace Crew

variable {τ ω : Type} {c : Crew τ ω} {tasks : List τ} {es : List (Event τ)}

/-- Two workers hold the same task only if it is listed twice. -/
theorem Accounts.two_le_count [DecidableEq τ] (h : Accounts tasks es c) {i i' : ℕ} {t : τ}
    {j j' : Job ω} (hi : c.stages[i]? = some (.holding t j))
    (hi' : c.stages[i']? = some (.holding t j')) (hne : i ≠ i') : 2 ≤ tasks.count t := by
  have hperm : (t :: (c.withStage i .gone).held).Perm c.held :=
    held_withStage_perm rfl .gone hi
  have hmem : t ∈ (c.withStage i .gone).held := by
    refine List.mem_filterMap.2 ⟨.holding t j', List.mem_of_getElem? (i := i') ?_, rfl⟩
    rw [withStage_stages, List.getElem?_set_ne hne, hi']
  have hpos : 0 < (c.withStage i .gone).held.count t := List.count_pos_iff.2 hmem
  have hheld : c.held.count t = (c.withStage i .gone).held.count t + 1 := by
    rw [← hperm.count_eq, List.count_cons_self]
  have htaken := h.held.count_eq t
  have htasks : tasks.count t = (Event.tasksTaken es).count t + c.queue.count t := by
    rw [← h.taken, List.count_append]
  rw [List.count_append] at htaken
  omega

end Crew

namespace BreaksTask

variable {g : Generator} {s : Store} {t₀ : Tree} {D : Place} {tasks : List BreaksTask} {size : ℕ}
  {k : BreaksTask} {c c' d : Crew BreaksTask Tree} {es : List (Event BreaksTask)}
  {e : Event BreaksTask}

/-- No two of a number of workers ever hold the task. -/
def Alone (tasks : List BreaksTask) (size : ℕ) (k : BreaksTask) : Prop :=
  tasks.count k ≤ 1 ∨ size ≤ 1

theorem Alone.eq_of_holding (hk : Alone tasks size k) (ha : Crew.Accounts tasks es c)
    (ho : Crew.Orderly size es c) {i i' : ℕ} {j j' : Job Tree}
    (hi : c.stages[i]? = some (.holding k j)) (hi' : c.stages[i']? = some (.holding k j')) :
    i = i' := by
  rcases hk with hcount | hsize
  · by_contra hne
    have := ha.two_le_count hi hi' hne
    omega
  · obtain ⟨hlt, -⟩ := List.getElem?_eq_some_iff.1 hi
    obtain ⟨hlt', -⟩ := List.getElem?_eq_some_iff.1 hi'
    have := ho.hired
    omega

/-- The files are tidy, every worker finds what it needs for the rest of its task, and tasks have
failed only without their drafts, which others have moved. -/
structure Sound (g : Generator) (s : Store) (t₀ : Tree) (D : Place) (tasks : List BreaksTask)
    (size : ℕ) (es : List (Event BreaksTask)) (c : Crew BreaksTask Tree) : Prop where
  tidy : Tidy g s t₀ D tasks c.world
  fits : ∀ k j, .holding k j ∈ c.stages → k ∈ tasks ∧ Fits g s D k (Alone tasks size k) c.world j
  ended : ∀ k r, .ended k r ∈ es → Lands g s D k (Alone tasks size k) c.world (.inr r)

theorem sound_start (hD : t₀.IsEmptyAt g.directory D) (workers : ℕ) :
    Sound g s t₀ D tasks size [] (Crew.start tasks workers t₀) where
  tidy := tidy_of_isEmptyAt hD
  fits := by simp [Crew.start]
  ended := by simp

/-- A move without a change of files after which no worker holds another task than before. -/
theorem Sound.quiet (h : Sound g s t₀ D tasks size es c) (hw : c'.world = c.world)
    (hst : ∀ k j, .holding k j ∈ c'.stages → .holding k j ∈ c.stages)
    (he : ∀ k r, e ≠ .ended k r) : Sound g s t₀ D tasks size (es ++ [e]) c' where
  tidy := hw ▸ h.tidy
  fits := fun k j hj => hw ▸ h.fits k j (hst k j hj)
  ended := by
    intro k r hr
    rcases List.mem_append.1 hr with hr | hr
    · exact h.ended k r hr
    · exact absurd (List.mem_singleton.1 hr).symm (he k r)

/-- A move of a worker for its task. -/
theorem Sound.restage (h : Sound g s t₀ D tasks size es c) (hd : d.stages = c.stages) {i : ℕ}
    {s' : Stage BreaksTask Tree} (htidy : Tidy g s t₀ D tasks d.world)
    (hothers : ∀ i' k j, i' ≠ i → c.stages[i']? = some (.holding k j) →
      Fits g s D k (Alone tasks size k) d.world j)
    (hself : ∀ k j, s' = .holding k j →
      k ∈ tasks ∧ Fits g s D k (Alone tasks size k) d.world j)
    (he : ∀ k r, e = .ended k r → Lands g s D k (Alone tasks size k) d.world (.inr r)) :
    Sound g s t₀ D tasks size (es ++ [e]) (d.withStage i s') where
  tidy := htidy
  fits := by
    intro k j hj
    obtain ⟨i', hi'⟩ := List.mem_iff_getElem?.1 hj
    rw [Crew.withStage_stages, hd] at hi'
    by_cases hii : i' = i
    · subst hii
      obtain ⟨hlt, -⟩ := List.getElem?_eq_some_iff.1 hi'
      rw [List.length_set] at hlt
      rw [List.getElem?_set_self hlt] at hi'
      exact hself k j (Option.some.inj hi')
    · rw [List.getElem?_set_ne (Ne.symm hii)] at hi'
      exact ⟨(h.fits k j (List.mem_of_getElem? hi')).1, hothers i' k j hii hi'⟩
  ended := by
    intro k r hr
    rcases List.mem_append.1 hr with hr | hr
    · exact h.ended k r hr
    · exact he k r (List.mem_singleton.1 hr).symm

theorem mem_of_mem_set {α : Type} {l : List α} {i : ℕ} {a b : α} (h : a ∈ l.set i b) (hne : a ≠ b) :
    a ∈ l :=
  (List.mem_or_eq_of_mem_set h).resolve_right hne

/-- What a step for the task in the hands of a worker means for it and for the others. -/
theorem Sound.next (h : Sound g s t₀ D tasks size es c) (ha : Crew.Accounts tasks es c)
    (ho : Crew.Orderly size es c) (hD : t₀.IsEmptyAt g.directory D)
    (hk : ∀ k ∈ tasks, IsFeasible g s k) {i : ℕ} {job : Job Tree} {world : Tree}
    {left : Job Tree ⊕ Option Report} (hi : c.stages[i]? = some (.holding k job))
    (hn : job.next c.world = (left, world)) :
    Tidy g s t₀ D tasks world ∧ Lands g s D k (Alone tasks size k) world left ∧
      ∀ i' k' j, i' ≠ i → c.stages[i']? = some (.holding k' j) →
        Fits g s D k' (Alone tasks size k') world j := by
  obtain ⟨hmem, hfits⟩ := h.fits k job (List.mem_of_getElem? hi)
  obtain ⟨htidy, hsteps, hlands⟩ := hfits.next h.tidy hD (hk k hmem) hmem hn
  refine ⟨htidy, hlands, fun i' k' j hne hi' => ?_⟩
  refine (h.fits k' j (List.mem_of_getElem? hi')).2.mono hsteps fun halone heq => ?_
  subst heq
  exact hne (halone.eq_of_holding ha ho hi' hi)

theorem Sound.move (h : Sound g s t₀ D tasks size es c) (ha : Crew.Accounts tasks es c)
    (ho : Crew.Orderly size es c) (hD : t₀.IsEmptyAt g.directory D)
    (hk : ∀ k ∈ tasks, IsFeasible g s k) (hm : Crew.Move (fun k => k.job g s) c e c') :
    Sound g s t₀ D tasks size (es ++ [e]) c' := by
  cases hm with
  | look hi =>
    refine h.quiet rfl (fun k j hj => mem_of_mem_set hj ?_) (by simp)
    split <;> simp
  | leave hi hq => exact h.quiet rfl (fun k j hj => mem_of_mem_set hj (by simp)) (by simp)
  | @take i t rest hi hq =>
    refine h.restage (d := { c with queue := rest }) rfl h.tidy
      (fun i' k j _ hi' => (h.fits k j (List.mem_of_getElem? hi')).2) ?_ ?_
    · rintro k j ⟨rfl, rfl⟩
      exact ⟨by simp [← ha.taken, hq], .inspecting⟩
    · simp
  | @work i t job job' world hi hn =>
    obtain ⟨htidy, hlands, hothers⟩ := h.next ha ho hD hk hi hn
    refine h.restage (d := { c with world }) rfl htidy hothers ?_ ?_
    · rintro k j ⟨rfl, rfl⟩
      exact ⟨(h.fits _ job (List.mem_of_getElem? hi)).1, hlands⟩
    · simp
  | @ends i t job report world hi hn =>
    obtain ⟨htidy, hlands, hothers⟩ := h.next ha ho hD hk hi hn
    refine h.restage (d := { c with world }) rfl htidy hothers ?_ ?_
    · rcases report with _ | _ | _ <;> simp [Stage.afterStep]
    · rintro k r ⟨rfl, rfl⟩
      exact hlands
  | stop hi => exact h.quiet rfl (fun k j hj => mem_of_mem_set hj (by simp)) (by simp)
  | send hi hm => exact h.quiet rfl (fun k j hj => mem_of_mem_set hj (by simp)) (by simp)
  | giveUp hi hm => exact h.quiet rfl (fun k j hj => mem_of_mem_set hj (by simp)) (by simp)
  | hire hm => exact h.quiet rfl (fun k j hj => by simpa using hj) (by simp)
  | _ => exact h.quiet rfl (fun k j hj => hj) (by simp)

/-- No worker is lost, so that only hiring may be obstructed. -/
theorem Sound.smooth (h : Sound g s t₀ D tasks size es c) (hh : ∀ fault, .obstructed fault ∉ es) :
    Event.Smooth es := by
  refine Event.smooth_of_reports (fun k r hr hnone => ?_) hh
  obtain ⟨report, hreport, -⟩ := h.ended k r hr
  cases hnone.symm.trans hreport

theorem sound_of_runs {workers : ℕ} (hD : t₀.IsEmptyAt g.directory D)
    (hk : ∀ k ∈ tasks, IsFeasible g s k)
    (h : Crew.Runs (fun k => k.job g s) (Crew.start tasks workers t₀) es c)
    (hh : ∀ fault, .obstructed fault ∉ es) :
    Sound g s t₀ D tasks (Crew.workerCount workers tasks.length) es c := by
  induction h with
  | nil => exact sound_start hD workers
  | snoc hr hc ih =>
    have hbefore := fun fault hf => hh fault (List.mem_append_left _ hf)
    have hsound := ih hbefore
    obtain ⟨ha, ho⟩ := hr.accounts_orderly (hsound.smooth hbefore)
    exact hsound.move ha ho hD hk (Crew.move_of_step hc)

end BreaksTask

/-- Whoever moves when, as long as the manager can hire: from an empty directory on, if the texts of
all files can be made, every file is absent or complete at every moment; a task fails only without
its draft, and only if it is listed twice and there are two workers; the crew comes to its end; and
it succeeds unless it has two workers and a task that writes a file is listed twice. -/
theorem breaks_batch_keeps_files_complete {g : Generator} {s : Store} {t₀ : Tree} {D : Place}
    {areaTypes : List AreaType} {categories : List String} {workers : ℕ}
    {es : List (Event BreaksTask)} {c : Crew BreaksTask Tree}
    (hD : t₀.IsEmptyAt g.directory D)
    (hk : ∀ k ∈ breaksTasks areaTypes categories, k.IsFeasible g s)
    (h : Crew.Runs (fun k => k.job g s)
      (Crew.start (breaksTasks areaTypes categories) workers t₀) es c)
    (hh : ∀ fault, .obstructed fault ∉ es) :
    (∀ k ∈ breaksTasks areaTypes categories, c.world.isThere (k.path g) = false ∨
      ∃ x, k.text g s = .ok x ∧ c.world.readText (k.path g) = .ok x) ∧
    (∀ k e, .ended k (some (.error e)) ∈ es →
      e = .file .missing ∧ Category.isTotals k.category = false ∧
      2 ≤ (breaksTasks areaTypes categories).count k ∧
      2 ≤ Crew.workerCount workers (breaksTasks areaTypes categories).length) ∧
    (es.length ≤ (Crew.start (breaksTasks areaTypes categories) workers t₀).weight
        (fun k => k.job g s) ∧
      ((∀ a, c.step (fun k => k.job g s) a = none) → ∃ r, c.manager = .closed r)) ∧
    ((Crew.workerCount workers (breaksTasks areaTypes categories).length = 1 ∨
        ∀ k, Category.isTotals k.category = false →
          (breaksTasks areaTypes categories).count k ≤ 1) →
      ∀ r, c.manager = .closed r → ∃ summary, r = .ok summary) := by
  have hsound := BreaksTask.sound_of_runs hD hk h hh
  obtain ⟨ha, ho⟩ := h.accounts_orderly (hsound.smooth hh)
  have hfailed : ∀ k e, .ended k (some (.error e)) ∈ es →
      e = .file .missing ∧ Category.isTotals k.category = false ∧
      2 ≤ (breaksTasks areaTypes categories).count k ∧
      2 ≤ Crew.workerCount workers (breaksTasks areaTypes categories).length := by
    intro k e he
    obtain ⟨report, hreport, hlands⟩ := hsound.ended k _ he
    cases hreport
    obtain ⟨hmissing, hcounts, halone⟩ := hlands e rfl
    rw [BreaksTask.Alone, not_or] at halone
    exact ⟨hmissing, hcounts, by omega, by omega⟩
  refine ⟨fun k hmem => hsound.tidy.absent_or_complete hD (hk k hmem), hfailed, ⟨?_, ?_⟩, ?_⟩
  · have := h.length_add_weight_le
    omega
  · exact fun hstuck => Crew.exists_of_isClosed (Crew.closed_of_stuck hstuck)
  · intro honce r hr
    have hresult := ho.result_eq ha hr
    cases hf : (Event.reportsReceived es).findSome? failureOf? with
    | none => exact ⟨_, by simpa [hf] using hresult⟩
    | some fault =>
      -- the failure received is that of a task, which must be listed twice
      obtain ⟨k, hk⟩ := ha.exists_ended hf
      obtain ⟨-, hcounts, htwice, htwo⟩ := hfailed k fault hk
      rcases honce with hone | honce
      · omega
      · have := honce k hcounts
        omega

/-- A tree with nothing but an empty directory for the files of batches. -/
def Tree.withOutput : Tree :=
  ⟨[(["work"], .directory), (["work", "out"], .directory)], ["work"]⟩

theorem Tree.withOutput_isEmptyAt : withOutput.IsEmptyAt "out" ["work", "out"] where
  clean := by decide
  leads := rfl
  empty := by
    intro rest hne
    simp [entryAt?, withOutput, Keyed.get?, Ne.symm hne]

/-- Two workers do two tasks step by step in turn. -/
theorem breaks_batch_keeps_files_complete_in_turn :
    ∃ es c, Crew.Runs (fun k : BreaksTask => k.job { directory := "out" } {})
        (Crew.start (breaksTasks [.district] ["QS101EW0002", "QS101EW0003"]) 2 .withOutput) es c ∧
      (∀ fault, .obstructed fault ∉ es) ∧ ∃ summary, c.manager = .closed (.ok summary) := by
  obtain ⟨es, c, hrun, hh, hm⟩ := Crew.exists_runs_of_follow?
    (fun k : BreaksTask => k.job { directory := "out" } {})
    (.start (breaksTasks [.district] ["QS101EW0002", "QS101EW0003"]) 2 .withOutput)
    [.manager none, .manager none, .manager none, .worker 0, .worker 1, .worker 0, .worker 1,
      .worker 0, .worker 1, .worker 0, .worker 1, .worker 0, .worker 1, .worker 0, .worker 1,
      .worker 0, .worker 1, .worker 0, .worker 1, .worker 0, .worker 1, .worker 0, .worker 1,
      .manager none, .manager none, .manager none] (.ok ⟨2, 0, 0⟩) (by decide +kernel)
  have hk : ∀ k ∈ breaksTasks [.district] ["QS101EW0002", "QS101EW0003"],
      k.IsFeasible { directory := "out" } {} := by
    intro k hk
    rcases List.mem_pair.1 hk with rfl | rfl
    · exact ⟨.inr ⟨"{}", rfl⟩, by decide⟩
    · exact ⟨.inr ⟨"{}", rfl⟩, by decide⟩
  have honce : ∀ k, (breaksTasks [.district] ["QS101EW0002", "QS101EW0003"]).count k ≤ 1 :=
    List.nodup_iff_count_le_one.1 (by decide)
  obtain ⟨summary, hsummary⟩ := (breaks_batch_keeps_files_complete Tree.withOutput_isEmptyAt hk
    hrun hh).2.2.2 (.inr fun k _ => honce k) _ hm
  exact ⟨es, c, hrun, hh, summary, hsummary ▸ hm⟩

/-- A batch can fail although nothing is wrong with the files and the texts of all of them can be
made: two workers have the same task, they share one draft, and the second one finds it gone. -/
theorem breaks_batch_can_fail :
    Tree.withOutput.IsEmptyAt "out" ["work", "out"] ∧
    (∀ k ∈ breaksTasks [.district] ["QS101EW0002", "QS101EW0002"],
      k.IsFeasible { directory := "out" } {}) ∧
    ∃ es c, Crew.Runs (fun k : BreaksTask => k.job { directory := "out" } {})
        (Crew.start (breaksTasks [.district] ["QS101EW0002", "QS101EW0002"]) 2 .withOutput) es c ∧
      (∀ fault, .obstructed fault ∉ es) ∧ c.manager = .closed (.error (.file .missing)) := by
  refine ⟨Tree.withOutput_isEmptyAt, fun k hk => ?_, ?_⟩
  · obtain rfl : k = ⟨.district, "QS101EW0002"⟩ := by simpa [breaksTasks] using hk
    exact ⟨.inr ⟨"{}", rfl⟩, by decide⟩
  · exact Crew.exists_runs_of_follow? _ _
      [.manager none, .manager none, .manager none, .worker 0, .worker 1, .worker 0, .worker 1,
        .worker 0, .worker 1, .worker 0, .worker 1, .worker 0, .worker 1, .worker 0, .worker 1,
        .worker 0, .worker 1, .worker 0, .worker 1, .worker 0, .worker 1, .manager none,
        .manager none, .manager none] _ (by decide +kernel)

end Choropleth
