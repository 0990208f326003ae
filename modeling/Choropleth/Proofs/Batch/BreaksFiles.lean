import Choropleth.Batch.Generate
import Choropleth.Proofs.Category
import Choropleth.Proofs.Files.Trees

/-!
# The files of a batch of breaks

From an empty directory on, the workers of a batch of breaks only ever create its directories and
its files, each with its complete text, under the name of the file or of its draft.

* `BreaksTask.IsFeasible`: a task whose text can be made, or that makes none;
* `Tree.IsEmptyAt`: an empty directory;
* `BreaksTask.Tidy`: what is there while the batch is running;
* `BreaksTask.Fits`: what is left to do for a task, and what it finds;
* `BreaksTask.Advances`, `BreaksTask.Fits.next`: a step for a task.
-/

namespace Choropleth

/-! ### Names -/

namespace Category

theorem le_toNat_of_letter_or_digit {c : Char}
    (h : isLetter c = true ∨ Number.isDigit c = true) : 48 ≤ c.toNat := by
  simp only [isLetter, Number.isDigit, Bool.and_eq_true, decide_eq_true_eq, Char.le_def,
    UInt32.le_iff_toNat_le] at h
  have hA : 'A'.val.toNat = 65 := rfl
  have h0 : '0'.val.toNat = 48 := rfl
  rw [Char.toNat]
  omega

end Category

theorem AreaType.isName_name (t : AreaType) : Path.IsName t.name := by
  cases t <;> exact ⟨by decide, by decide, by decide, by decide, by decide⟩

namespace BreaksTask

variable {g : Generator} {s : Store} {k k' : BreaksTask}

/-- The text of the task can be made, unless it makes none, and the file system takes its names. -/
structure IsFeasible (g : Generator) (s : Store) (k : BreaksTask) : Prop where
  made : Category.isTotals k.category = true ∨ ∃ x, k.text g s = .ok x
  short : (k.category ++ ".json.tmp").utf8ByteSize ≤ Tree.maxName

/-- The name of the file. -/
def fileName (k : BreaksTask) : String := k.category ++ ".json"

/-- The name of its draft. -/
def draftName (k : BreaksTask) : String := k.category ++ ".json.tmp"

/-- The directory of the file. -/
def directory (g : Generator) (k : BreaksTask) : String :=
  Path.joinAll g.directory ["breaks", k.areaType.name]

theorem IsFeasible.exists_splitChars? (h : IsFeasible g s k) :
    ∃ p, Category.splitChars? k.category.toList = some p := by
  rcases h.made with ht | ⟨x, hx⟩
  · rw [Category.isTotals] at ht
    split at ht
    case h_1 hs => exact ⟨_, hs⟩
    case h_2 => cases ht
  · rw [text, totalsOf, Category.totals] at hx
    cases hs : Category.splitChars? k.category.toList with
    | none => simp [hs, bind, Except.bind] at hx
    | some p => exact ⟨p, rfl⟩

/-- The code of a feasible task with more at its end is a name. -/
theorem IsFeasible.isName (h : IsFeasible g s k) {ending : String} (he : 2 < ending.length)
    (hslash : '/' ∉ ending.toList) (hclean : Tree.hasBadCharacter ending = false)
    (hshort : ending.utf8ByteSize ≤ ".json.tmp".utf8ByteSize) :
    Path.IsName (k.category ++ ending) := by
  obtain ⟨p, hp⟩ := h.exists_splitChars?
  have hchars : ∀ c ∈ k.category.toList, 48 ≤ c.toNat := fun c hc =>
    Category.le_toNat_of_letter_or_digit (Category.of_mem_of_splitChars? hp hc)
  have hlength : 2 < (k.category ++ ending).length := by
    rw [String.length_append]
    omega
  refine ⟨?_, ?_, ?_, ?_, ?_⟩
  · rw [String.toList_append, List.mem_append, not_or]
    refine ⟨fun hc => ?_, hslash⟩
    exact absurd (hchars _ hc) (by decide)
  · rw [Path.isHere, Bool.or_eq_false_iff, decide_eq_false_iff_not, decide_eq_false_iff_not]
    constructor <;> intro he <;> rw [he] at hlength <;> exact absurd hlength (by decide)
  · intro he
    rw [he] at hlength
    exact absurd hlength (by decide)
  · have := h.short
    rw [String.utf8ByteSize_append] at this ⊢
    omega
  · rw [Path.hasBadCharacter_append, hclean, Bool.or_false]
    refine Path.hasBadCharacter_eq_false.2 fun c hc => ?_
    have := hchars c hc
    omega

theorem IsFeasible.isName_fileName (h : IsFeasible g s k) : Path.IsName k.fileName :=
  h.isName (by decide) (by decide) (by decide) (by decide)

theorem IsFeasible.isName_draftName (h : IsFeasible g s k) : Path.IsName k.draftName :=
  h.isName (by decide) (by decide) (by decide) (by decide)

theorem path_eq (g : Generator) (k : BreaksTask) :
    k.path g = Path.join (k.directory g) k.fileName := rfl

theorem IsFeasible.draftPath_eq (h : IsFeasible g s k) :
    draftPath (k.path g) = Path.join (k.directory g) k.draftName := by
  rw [path_eq, draftPath, Path.beside_join _ h.isName_fileName.slash (by decide), fileName,
    String.append_assoc]
  rfl

theorem isName_breaks : Path.IsName "breaks" :=
  ⟨by decide, by decide, by decide, by decide, by decide⟩

/-- The names from the output directory to the directory of the file. -/
def directoryNames (k : BreaksTask) : List String := ["breaks", k.areaType.name]

theorem isName_of_mem_directoryNames {n : String} (h : n ∈ k.directoryNames) : Path.IsName n := by
  rcases List.mem_pair.1 h with rfl | rfl
  · exact isName_breaks
  · exact k.areaType.isName_name

theorem directory_eq (g : Generator) (k : BreaksTask) :
    k.directory g = Path.join (Path.join g.directory "breaks") k.areaType.name := rfl

theorem named_directory (g : Generator) (k : BreaksTask) :
    Path.named (k.directory g) = Path.named g.directory ++ k.directoryNames := by
  rw [directory_eq, Path.named_join _ k.areaType.isName_name, Path.named_join _ isName_breaks,
    List.append_assoc]
  rfl

theorem start_directory (t : Tree) (g : Generator) (k : BreaksTask) :
    t.start (k.directory g) = t.start g.directory := by
  rw [directory_eq, Tree.start_join _ k.areaType.isName_name, Tree.start_join _ isName_breaks]

theorem hasBadCharacter_directory (h : Tree.hasBadCharacter g.directory = false)
    (k : BreaksTask) : Tree.hasBadCharacter (k.directory g) = false :=
  Path.hasBadCharacter_join (Path.hasBadCharacter_join h isName_breaks.clean)
    k.areaType.isName_name.clean

/-- Different tasks have different files, and different drafts. -/
theorem eq_of_names_eq {ending : String}
    (h : k.directoryNames ++ [k.category ++ ending] = k'.directoryNames ++ [k'.category ++ ending]) :
    k = k' := by
  obtain ⟨ht, hc⟩ : k.areaType.name = k'.areaType.name ∧ k.category = k'.category := by
    simpa [directoryNames] using h
  cases k
  cases k'
  cases AreaType.name_injective ht
  cases hc
  rfl

theorem fileName_ne_draftName (k k' : BreaksTask) : k.fileName ≠ k'.draftName := by
  intro h
  have := congrArg (fun n : String => n.toList.getLast?) h
  simp [fileName, draftName] at this

/-! ### What is there while a batch is running -/

variable {t₀ t t' : Tree} {D : Place} {tasks : List BreaksTask} {x : String}

/-- The place of the file. -/
def filePlace (D : Place) (k : BreaksTask) : Place := D ++ k.directoryNames ++ [k.fileName]

/-- The place of its draft. -/
def draftPlace (D : Place) (k : BreaksTask) : Place := D ++ k.directoryNames ++ [k.draftName]

/-- The file of the task is made, and this is its text. -/
structure Makes (g : Generator) (s : Store) (k : BreaksTask) (x : String) : Prop where
  made : k.text g s = .ok x
  counts : Category.isTotals k.category = false

/-- In the output directory there are only directories, at most two deep, and files and drafts of
the tasks with their complete texts. -/
structure Tidy (g : Generator) (s : Store) (t₀ : Tree) (D : Place) (tasks : List BreaksTask)
    (t : Tree) : Prop where
  keeps : Tree.KeepsDirectories t₀ t
  below : ∀ rest e, rest ≠ [] → t.entryAt? (D ++ rest) = some e →
    e = .directory ∧ rest.length ≤ 2 ∨
      ∃ k ∈ tasks, ∃ x, Makes g s k x ∧ e = .file (.text x) ∧
        (rest = k.directoryNames ++ [k.fileName] ∨ rest = k.directoryNames ++ [k.draftName])

theorem tidy_of_isEmptyAt (h : t₀.IsEmptyAt g.directory D) : Tidy g s t₀ D tasks t₀ where
  keeps := .refl t₀
  below := by
    intro rest e hne he
    rw [h.empty rest hne] at he
    cases he

/-- The output directory stays where it is. -/
theorem Tidy.walk_base (h : Tidy g s t₀ D tasks t) (hD : t₀.IsEmptyAt g.directory D) :
    t.walk (t.start g.directory) (Path.named g.directory) = .ok D := by
  rw [h.keeps.start_eq]
  exact h.keeps.walk_eq_ok hD.walk_named

/-- What is at the place of the file or of its draft is the complete text. -/
theorem Tidy.of_entry (h : Tidy g s t₀ D tasks t) {n : String} {e : Entry}
    (hn : n = k.fileName ∨ n = k.draftName)
    (he : t.entryAt? (D ++ k.directoryNames ++ [n]) = some e) :
    ∃ x, Makes g s k x ∧ e = .file (.text x) := by
  rw [List.append_assoc] at he
  rcases h.below _ _ (by simp) he with ⟨-, hlength⟩ | ⟨k', -, x, hx, rfl, hplace⟩
  · simp [directoryNames] at hlength
  · suffices k = k' from ⟨x, this ▸ hx, rfl⟩
    rcases hn with rfl | rfl <;> rcases hplace with hp | hp
    · exact eq_of_names_eq hp
    · exact absurd (List.singleton_injective (List.append_inj' hp rfl).2)
        (fileName_ne_draftName k k')
    · exact absurd (List.singleton_injective (List.append_inj' hp rfl).2).symm
        (fileName_ne_draftName k' k)
    · exact eq_of_names_eq hp

theorem Tidy.entryAt?_ne_directory (h : Tidy g s t₀ D tasks t) {n : String}
    (hn : n = k.fileName ∨ n = k.draftName) :
    t.entryAt? (D ++ k.directoryNames ++ [n]) ≠ some .directory := by
  intro he
  obtain ⟨x, -, hx⟩ := h.of_entry hn he
  cases hx

theorem Tidy.put (h : Tidy g s t₀ D tasks t) (hk : k ∈ tasks) (hx : Makes g s k x) {n : String}
    (hn : n = k.fileName ∨ n = k.draftName) :
    Tidy g s t₀ D tasks (t.put (D ++ k.directoryNames ++ [n]) (.file (.text x))) where
  keeps := h.keeps.trans (Tree.keepsDirectories_put (h.entryAt?_ne_directory hn) _)
  below := by
    intro rest e hne he
    by_cases hrest : D ++ rest = D ++ k.directoryNames ++ [n]
    · rw [hrest, Tree.entryAt?_put_self (by simp)] at he
      cases he
      rw [List.append_assoc, List.append_cancel_left_eq] at hrest
      subst hrest
      refine .inr ⟨k, hk, x, hx, rfl, ?_⟩
      rcases hn with rfl | rfl
      · exact .inl rfl
      · exact .inr rfl
    · rw [Tree.entryAt?_put_of_ne hrest] at he
      exact h.below rest e hne he

theorem Tidy.erase (h : Tidy g s t₀ D tasks t) (k : BreaksTask) :
    Tidy g s t₀ D tasks (t.erase (draftPlace D k)) where
  keeps := h.keeps.trans (Tree.keepsDirectories_erase (h.entryAt?_ne_directory (.inr rfl)))
  below := by
    intro rest e hne he
    by_cases hrest : D ++ rest = draftPlace D k
    · rw [hrest, Tree.entryAt?_erase_self (by simp [draftPlace])] at he
      cases he
    · rw [Tree.entryAt?_erase_of_ne hrest] at he
      exact h.below rest e hne he

/-- A step for a task keeps directories and leaves the drafts of other tasks alone. -/
structure StepsFor (D : Place) (k : BreaksTask) (t t' : Tree) : Prop where
  keeps : Tree.KeepsDirectories t t'
  others : ∀ k', k' ≠ k → t'.entryAt? (draftPlace D k') = t.entryAt? (draftPlace D k')

theorem StepsFor.refl (D : Place) (k : BreaksTask) (t : Tree) : StepsFor D k t t :=
  ⟨.refl t, fun _ _ => rfl⟩

theorem StepsFor.trans {t'' : Tree} (h : StepsFor D k t t') (h' : StepsFor D k t' t'') :
    StepsFor D k t t'' :=
  ⟨h.keeps.trans h'.keeps, fun k' hne => (h'.others k' hne).trans (h.others k' hne)⟩

/-- The directory of the file is there. -/
def Ready (g : Generator) (D : Place) (k : BreaksTask) (t : Tree) : Prop :=
  t.walk (t.start (k.directory g)) (Path.named (k.directory g)) = .ok (D ++ k.directoryNames)

theorem Ready.mono (h : Ready g D k t) (ht : Tree.KeepsDirectories t t') : Ready g D k t' := by
  rw [Ready, ht.start_eq]
  exact ht.walk_eq_ok h

/-- The directory of the file can be created. -/
theorem Tidy.isFree (h : Tidy g s t₀ D tasks t) (k : BreaksTask) :
    Tree.IsFree t D k.directoryNames := by
  intro front c hne hfront he
  rcases h.below front _ hne he with ⟨hc, -⟩ | ⟨k', -, x, -, -, hplace⟩
  · cases hc
  · have hlength := hfront.length_le
    rcases hplace with rfl | rfl <;> simp [directoryNames] at hlength

theorem Tidy.opens (h : Tidy g s t₀ D tasks t) (ho : Tree.Opens D k.directoryNames t t') :
    Tidy g s t₀ D tasks t' where
  keeps := h.keeps.trans ho.keepsDirectories
  below := by
    intro rest e hne he
    by_cases hway : rest <+: k.directoryNames
    · rw [ho.opened rest hne hway] at he
      cases he
      exact .inl ⟨rfl, hway.length_le⟩
    · refine h.below rest e hne ?_
      rwa [ho.kept] at he
      intro front _ hfront hp
      obtain rfl := List.append_cancel_left hp
      exact hway hfront

theorem stepsFor_opens (ho : Tree.Opens D k.directoryNames t t') : StepsFor D k t t' where
  keeps := ho.keepsDirectories
  others := by
    intro k' _
    refine ho.kept _ fun front _ hfront hp => ?_
    rw [draftPlace, List.append_assoc] at hp
    have hlength := hfront.length_le
    rw [← List.append_cancel_left hp] at hlength
    simp [directoryNames] at hlength

theorem ready_of_opens (ho : Tree.Opens D k.directoryNames t t')
    (hbase : t.walk (t.start g.directory) (Path.named g.directory) = .ok D) : Ready g D k t' := by
  have hbase' : t'.walk (t'.start g.directory) (Path.named g.directory) = .ok D := by
    rw [ho.keepsDirectories.start_eq]
    exact ho.keepsDirectories.walk_eq_ok hbase
  rw [Ready, start_directory, named_directory, Tree.walk_append_of_walk hbase']
  exact (Tree.walk_names_eq_ok fun n hn => isName_of_mem_directoryNames hn).2 ⟨rfl, ho.opened⟩

/-- The directory of the file is created, and nothing else changes. -/
theorem Tidy.exists_ensureDirectory (h : Tidy g s t₀ D tasks t) (hD : t₀.IsEmptyAt g.directory D)
    (hk : IsFeasible g s k) :
    ∃ q t', Path.parent? (k.path g) = some q ∧ t.ensureDirectory q = (.ok (), t') ∧
      Tidy g s t₀ D tasks t' ∧ StepsFor D k t t' ∧ Ready g D k t' := by
  obtain ⟨q, hparent, hnamed, habs, hclean⟩ :=
    Path.exists_parent?_join hk.isName_fileName (hasBadCharacter_directory hD.clean k)
  have hstart : t.start q = t.start g.directory := by
    rw [← start_directory t g k, Tree.start, Tree.start, habs]
  have hbase := h.walk_base hD
  obtain ⟨t', ht', ho⟩ := Tree.exists_ensureDirectory hclean (hstart ▸ hbase)
    (hnamed.trans (named_directory g k)) (by simp [directoryNames])
    (fun n hn => isName_of_mem_directoryNames hn) (h.isFree k)
  exact ⟨q, t', hparent, ht', h.opens ho, stepsFor_opens ho, ready_of_opens ho hbase⟩

/-- The draft is written with the complete text. -/
theorem Tidy.write_draft (h : Tidy g s t₀ D tasks t) (hD : t₀.IsEmptyAt g.directory D)
    (hk : IsFeasible g s k) (hr : Ready g D k t) (x : String) :
    t.write (draftPath (k.path g)) (.text x) =
      .ok (t.put (draftPlace D k) (.file (.text x))) := by
  rw [hk.draftPath_eq]
  exact Tree.write_join (hasBadCharacter_directory hD.clean k) hk.isName_draftName hr
    (h.entryAt?_ne_directory (.inr rfl)) _

/-- The draft is moved to the place of the file, if it is there. -/
theorem Tidy.move_draft (h : Tidy g s t₀ D tasks t) (hD : t₀.IsEmptyAt g.directory D)
    (hk : IsFeasible g s k) (hr : Ready g D k t) :
    t.move (draftPath (k.path g)) (k.path g) =
      match t.entryAt? (draftPlace D k) with
      | some (.file c) => .ok ((t.erase (draftPlace D k)).put (filePlace D k) (.file c))
      | _ => .error .missing := by
  rw [hk.draftPath_eq, path_eq]
  exact Tree.move_join (hasBadCharacter_directory hD.clean k) hk.isName_draftName
    hk.isName_fileName hr (h.entryAt?_ne_directory (.inr rfl)) (h.entryAt?_ne_directory (.inl rfl))

theorem stepsFor_put {n : String} (hn : n = k.fileName ∨ n = k.draftName)
    (h : t.entryAt? (D ++ k.directoryNames ++ [n]) ≠ some .directory) (e : Entry) :
    StepsFor D k t (t.put (D ++ k.directoryNames ++ [n]) e) where
  keeps := Tree.keepsDirectories_put h e
  others := by
    intro k' hne
    refine Tree.entryAt?_put_of_ne ?_ e
    rw [draftPlace, List.append_assoc, List.append_assoc, ne_eq, List.append_cancel_left_eq]
    intro hp
    rcases hn with rfl | rfl
    · exact fileName_ne_draftName k k' (List.singleton_injective (List.append_inj' hp rfl).2).symm
    · exact hne (eq_of_names_eq hp)

theorem stepsFor_erase (h : t.entryAt? (draftPlace D k) ≠ some .directory) :
    StepsFor D k t (t.erase (draftPlace D k)) where
  keeps := Tree.keepsDirectories_erase h
  others := by
    intro k' hne
    refine Tree.entryAt?_erase_of_ne ?_
    rw [draftPlace, draftPlace, List.append_assoc, List.append_assoc, ne_eq,
      List.append_cancel_left_eq]
    exact fun hp => hne (eq_of_names_eq hp)

/-! ### Steps for a task -/

/-- What may be left to do for a task, and what it finds. A worker that is alone with the task finds
its draft where it has left it. -/
inductive Fits (g : Generator) (s : Store) (D : Place) (k : BreaksTask) (alone : Prop) (t : Tree) :
    Job Tree → Prop
  | inspecting : Fits g s D k alone t (k.job g s)
  | preparing {x : String} (hx : Makes g s k x) :
    Fits g s D k alone t
      (.ofFileSteps (.written (k.path g)) (replaceSteps (k.path g) (.text x)))
  | writing {x : String} (hx : Makes g s k x) (hr : Ready g D k t) :
    Fits g s D k alone t
      (.ofFileSteps (.written (k.path g))
        [.write (draftPath (k.path g)) (.text x), .move (draftPath (k.path g)) (k.path g)])
  | moving (hc : Category.isTotals k.category = false) (hr : Ready g D k t)
    (hd : alone → ∃ c, t.entryAt? (draftPlace D k) = some (.file c)) :
    Fits g s D k alone t
      (.ofFileSteps (.written (k.path g)) [.move (draftPath (k.path g)) (k.path g)])
  | reporting : Fits g s D k alone t (.ofFileSteps (.written (k.path g)) [])

variable {alone : Prop} {j : Job Tree} {left : Job Tree ⊕ Option Report}

/-- Steps for other tasks do not matter, and if the worker is not alone, no steps do. -/
theorem Fits.mono (h : Fits g s D k alone t j) (ht : StepsFor D k' t t') (hne : alone → k ≠ k') :
    Fits g s D k alone t' j := by
  cases h with
  | inspecting => exact .inspecting
  | preparing hx => exact .preparing hx
  | writing hx hr => exact .writing hx (hr.mono ht.keeps)
  | moving hc hr hd =>
    refine .moving hc (hr.mono ht.keeps) fun ha => ?_
    rw [ht.others k (hne ha)]
    exact hd ha
  | reporting => exact .reporting

/-- After a step for a task something that fits is left to do, or the task has ended. It fails only
without its draft, and only if the worker was not alone with it. -/
def Lands (g : Generator) (s : Store) (D : Place) (k : BreaksTask) (alone : Prop) (t : Tree) :
    Job Tree ⊕ Option Report → Prop
  | .inl j => Fits g s D k alone t j
  | .inr r => ∃ report, r = some report ∧
      ∀ e, report = .error e →
        e = .file .missing ∧ Category.isTotals k.category = false ∧ ¬alone

theorem lands_ok (o : TaskOutcome) : Lands g s D k alone t (.inr (some (.ok o))) :=
  ⟨_, rfl, fun _ he => by cases he⟩

theorem next_ofFileSteps {o : TaskOutcome} {f : FileStep} {fs : List FileStep}
    (h : f.run t = (.ok (), t')) :
    (Job.ofFileSteps o (f :: fs)).next t = (.inl (.ofFileSteps o fs), t') := by
  simp [Job.ofFileSteps, Job.next, h]

/-- A step for a task: the files stay tidy, other tasks are left alone, and what is left to do finds
what it needs. -/
structure Advances (g : Generator) (s : Store) (t₀ : Tree) (D : Place) (tasks : List BreaksTask)
    (k : BreaksTask) (alone : Prop) (t : Tree) (left : Job Tree ⊕ Option Report) (t' : Tree) :
    Prop where
  tidy : Tidy g s t₀ D tasks t'
  steps : StepsFor D k t t'
  lands : Lands g s D k alone t' left

/-- The first step changes nothing. -/
theorem Tidy.advances_inspecting (ht : Tidy g s t₀ D tasks t) (hk : IsFeasible g s k)
    (hn : (k.job g s).next t = (left, t')) : Advances g s t₀ D tasks k alone t left t' := by
  rw [job, production, Job.next, inspect] at hn
  by_cases hc : Category.isTotals k.category = true
  · rw [if_pos hc] at hn
    cases hn
    exact ⟨ht, .refl D k t, lands_ok _⟩
  rw [if_neg hc] at hn
  by_cases hp : t.isThere (k.path g) = true
  · rw [if_pos hp] at hn
    cases hn
    exact ⟨ht, .refl D k t, lands_ok _⟩
  · obtain ⟨x, hx⟩ := hk.made.resolve_left hc
    rw [if_neg hp] at hn
    simp only [hx] at hn
    cases hn
    exact ⟨ht, .refl D k t, .preparing ⟨hx, by simpa using hc⟩⟩

/-- The second step creates the directory. -/
theorem Tidy.advances_preparing (ht : Tidy g s t₀ D tasks t) (hD : t₀.IsEmptyAt g.directory D)
    (hk : IsFeasible g s k) (hx : Makes g s k x)
    (hn : (Job.ofFileSteps (.written (k.path g)) (replaceSteps (k.path g) (.text x))).next t =
      (left, t')) : Advances g s t₀ D tasks k alone t left t' := by
  obtain ⟨q, t₁, hparent, hrun, htidy, hsteps, hready⟩ := ht.exists_ensureDirectory hD hk
  have hfiles : replaceSteps (k.path g) (.text x) =
      [.ensureDirectory q, .write (draftPath (k.path g)) (.text x),
        .move (draftPath (k.path g)) (k.path g)] := by
    rw [replaceSteps, hparent]
    rfl
  have hstep : (FileStep.ensureDirectory q).run t = (.ok (), t₁) := hrun
  rw [hfiles, next_ofFileSteps hstep] at hn
  cases hn
  exact ⟨htidy, hsteps, .writing hx hready⟩

/-- The third step writes the draft. -/
theorem Tidy.advances_writing (ht : Tidy g s t₀ D tasks t) (hD : t₀.IsEmptyAt g.directory D)
    (hk : IsFeasible g s k) (hmem : k ∈ tasks) (hx : Makes g s k x) (hr : Ready g D k t)
    (hn : (Job.ofFileSteps (.written (k.path g)) [.write (draftPath (k.path g)) (.text x),
      .move (draftPath (k.path g)) (k.path g)]).next t = (left, t')) :
    Advances g s t₀ D tasks k alone t left t' := by
  have hrun : (FileStep.write (draftPath (k.path g)) (.text x)).run t =
      (.ok (), t.put (draftPlace D k) (.file (.text x))) := by
    rw [FileStep.run, ht.write_draft hD hk hr x]
  have hsteps : StepsFor D k t (t.put (draftPlace D k) (.file (.text x))) :=
    stepsFor_put (.inr rfl) (ht.entryAt?_ne_directory (.inr rfl)) _
  rw [next_ofFileSteps hrun] at hn
  cases hn
  refine ⟨ht.put hmem hx (.inr rfl), hsteps, .moving hx.counts (hr.mono hsteps.keeps) fun _ => ?_⟩
  exact ⟨_, Tree.entryAt?_put_self (by simp [draftPlace]) _⟩

/-- The fourth step moves the draft, unless somebody else has done so. -/
theorem Tidy.advances_moving (ht : Tidy g s t₀ D tasks t) (hD : t₀.IsEmptyAt g.directory D)
    (hk : IsFeasible g s k) (hmem : k ∈ tasks) (hc : Category.isTotals k.category = false)
    (hr : Ready g D k t) (hd : alone → ∃ c, t.entryAt? (draftPlace D k) = some (.file c))
    (hn : (Job.ofFileSteps (.written (k.path g))
      [.move (draftPath (k.path g)) (k.path g)]).next t = (left, t')) :
    Advances g s t₀ D tasks k alone t left t' := by
  have hmove := ht.move_draft hD hk hr
  by_cases hdraft : ∃ c, t.entryAt? (draftPlace D k) = some (.file c)
  · obtain ⟨c, hc⟩ := hdraft
    obtain ⟨x, hx, hcx⟩ := ht.of_entry (.inr rfl) hc
    cases hcx
    have hrun : (FileStep.move (draftPath (k.path g)) (k.path g)).run t =
        (.ok (), (t.erase (draftPlace D k)).put (filePlace D k) (.file (.text x))) := by
      rw [FileStep.run, hmove, hc]
    have hsteps : StepsFor D k t
        ((t.erase (draftPlace D k)).put (filePlace D k) (.file (.text x))) :=
      (stepsFor_erase (ht.entryAt?_ne_directory (.inr rfl))).trans
        (stepsFor_put (.inl rfl) ((ht.erase k).entryAt?_ne_directory (.inl rfl)) _)
    rw [next_ofFileSteps hrun] at hn
    cases hn
    exact ⟨(ht.erase k).put hmem hx (.inl rfl), hsteps, .reporting⟩
  · have hmissing : t.move (draftPath (k.path g)) (k.path g) = .error .missing := by
      rw [hmove]
      split
      case h_1 c hc => exact absurd ⟨c, hc⟩ hdraft
      case h_2 => rfl
    have hrun : (FileStep.move (draftPath (k.path g)) (k.path g)).run t = (.error .missing, t) := by
      rw [FileStep.run, hmissing]
    simp only [Job.ofFileSteps, Job.next, hrun] at hn
    cases hn
    refine ⟨ht, .refl D k t, _, rfl, fun e he => ?_⟩
    cases he
    exact ⟨rfl, hc, fun ha => hdraft (hd ha)⟩

theorem Fits.next (h : Fits g s D k alone t j) (ht : Tidy g s t₀ D tasks t)
    (hD : t₀.IsEmptyAt g.directory D) (hk : IsFeasible g s k) (hmem : k ∈ tasks)
    (hn : j.next t = (left, t')) : Advances g s t₀ D tasks k alone t left t' := by
  cases h with
  | inspecting => exact ht.advances_inspecting hk hn
  | preparing hx => exact ht.advances_preparing hD hk hx hn
  | writing hx hr => exact ht.advances_writing hD hk hmem hx hr hn
  | moving hc hr hd => exact ht.advances_moving hD hk hmem hc hr hd hn
  | reporting =>
    cases hn
    exact ⟨ht, .refl D k t, lands_ok _⟩

/-! ### Files at their places -/

/-- The file of a task is absent, or it holds its complete text. -/
theorem Tidy.absent_or_complete (h : Tidy g s t₀ D tasks t) (hD : t₀.IsEmptyAt g.directory D)
    (hk : IsFeasible g s k) :
    t.isThere (k.path g) = false ∨ ∃ x, k.text g s = .ok x ∧ t.readText (k.path g) = .ok x := by
  cases hthere : t.isThere (k.path g) with
  | false => exact .inl rfl
  | true =>
    rw [path_eq] at hthere
    obtain ⟨d, e, hw, he⟩ := Tree.exists_of_isThere_join (hasBadCharacter_directory hD.clean k)
      hk.isName_fileName hthere
    have hd := hw
    rw [start_directory, named_directory, Tree.walk_append_of_walk (h.walk_base hD),
      Tree.walk_names_eq_ok fun n hn => isName_of_mem_directoryNames hn] at hd
    obtain ⟨rfl, -⟩ := hd
    obtain ⟨x, hx, rfl⟩ := h.of_entry (.inl rfl) he
    refine .inr ⟨x, hx.made, ?_⟩
    rw [path_eq, Tree.readText, Tree.read,
      Tree.find_join (hasBadCharacter_directory hD.clean k) hk.isName_fileName hw, he]

end BreaksTask
end Choropleth
