import Choropleth.Proofs.Files.Creating

/-!
# Replacements that are interrupted

A file is replaced by creating its directory, writing its draft and moving the draft. If this stops
in the middle, some of the directories are there, or a draft with any part of the text. To replace
the file again then comes to the same, down to the order in which entries were made.

* `Path.EndsIn`: the last part of a path is a name;
* `FileStep.Midway`: what a step leaves behind if it is interrupted;
* `Tree.PartlyReplaces`: what is left behind if the replacing of a file is interrupted;
* `Tree.PartlyReplaces.replace_eq`: replacing the file again comes to the same.
-/

namespace Choropleth

/-- What a step leaves behind if it is interrupted: some of its directories, or a file with any part
of its contents. A file is moved at one stroke. -/
inductive FileStep.Midway (t : Tree) : FileStep → Tree → Prop
  | creating {path : String} {front back : List String} {t' : Tree} (hne : path ≠ "")
    (hthere : t.isThere path = false) (hclean : Tree.hasBadCharacter path = false)
    (hparts : Path.parts path = front ++ back)
    (hc : t.createFrom (t.start path) front = (.ok (), t')) : Midway t (.ensureDirectory path) t'
  | writing {path : String} {whole part : Content} {t' : Tree} (hw : t.write path part = .ok t') :
    Midway t (.write path whole) t'

/-! ### Paths that end in a name -/

namespace Path

/-- The last part of a path is a name, of any length. -/
structure EndsIn (path : String) (front : List String) (last : String) : Prop where
  parts_eq : parts path = front ++ [last]
  here : isHere last = false
  up : last ≠ ".."

variable {path last : String} {front : List String}

theorem EndsIn.named_eq (h : EndsIn path front last) :
    named path = front.filter (fun p => !isHere p) ++ [last] := by
  rw [named, h.parts_eq, List.filter_append]
  simp [h.here]

/-- A part with an ending that is longer than `..` is a name. -/
theorem endsIn_of_ending {ending : String} (hlong : 2 < ending.length)
    (hparts : parts path = front ++ [last ++ ending]) : EndsIn path front (last ++ ending) := by
  have hlength : 2 < (last ++ ending).length := by
    rw [String.length_append]
    omega
  refine ⟨hparts, ?_, fun he => ?_⟩
  · rw [isHere, Bool.or_eq_false_iff, decide_eq_false_iff_not, decide_eq_false_iff_not]
    constructor <;> intro he <;> rw [he] at hlength <;> exact absurd hlength (by decide)
  · rw [he] at hlength
    exact absurd hlength (by decide)

/-- A draft is beside its file. -/
theorem EndsIn.draftPath (h : EndsIn path front last) :
    EndsIn (draftPath path) front (last ++ ".tmp") := by
  obtain ⟨front', last', hp, hpe⟩ := exists_parts_append path (show '/' ∉ ".tmp".toList by decide)
  obtain ⟨rfl, hlast⟩ := List.append_inj' (hp.symm.trans h.parts_eq) rfl
  obtain rfl : last' = last := by simpa using hlast
  exact endsIn_of_ending (by decide) hpe

theorem EndsIn.ne_empty (h : EndsIn path front last) : path ≠ "" := by
  rintro rfl
  have := h.named_eq
  simp at this

/-- The directory of a file. -/
theorem EndsIn.exists_parent? (h : EndsIn path front last) :
    ∃ q, parent? path = some q ∧ named q = front.filter (fun p => !isHere p) ∧
      ∀ t : Tree, t.start q = t.start path := by
  obtain ⟨q, hq, hnamed, habs, -⟩ := exists_parent?_of_named h.named_eq
  exact ⟨q, hq, hnamed, fun t => by rw [Tree.start, Tree.start, habs]⟩

end Path

namespace Tree

open Choropleth.Path

variable {t t' : Tree} {d e : Place} {path last q : String} {front : List String} {c : Content}

theorem locate_eq_ok (h : EndsIn path front last) {s : Spot} :
    t.locate path = .ok s ↔ (hasBadCharacter path = false ∧ last.utf8ByteSize ≤ maxName) ∧
      ∃ d, t.walk (t.start path) front = .ok d ∧ s = ⟨d, some last⟩ := by
  have hspot (d : Place) : t.spot d last =
      if maxName < last.utf8ByteSize then .error .badName else .ok ⟨d, some last⟩ := by
    rw [spot, if_neg (by simp [h.here, h.up])]
  rw [locate, if_neg h.ne_empty, h.parts_eq, List.dropLast_concat, List.getLast?_concat]
  cases hasBadCharacter path with
  | true => simp
  | false =>
    cases hw : t.walk (t.start path) front with
    | error f => simp
    | ok d =>
      by_cases hlong : maxName < last.utf8ByteSize
      · simp [hspot, hlong]
      · simp [hspot, hlong, Nat.not_lt.1 hlong, eq_comm]

theorem isThere_iff (h : EndsIn path front last) :
    t.isThere path = true ↔ (hasBadCharacter path = false ∧ last.utf8ByteSize ≤ maxName) ∧
      ∃ d x, t.walk (t.start path) front = .ok d ∧ t.entryAt? (d ++ [last]) = some x := by
  constructor
  · intro hthere
    obtain ⟨s, x, hs, hx⟩ := exists_locate_of_isThere hthere
    obtain ⟨hname, d, hw, rfl⟩ := (locate_eq_ok h).1 hs
    exact ⟨hname, d, x, hw, hx⟩
  · rintro ⟨hname, d, x, hw, hx⟩
    have hs := (locate_eq_ok h).2 ⟨hname, d, hw, rfl⟩
    have hx' : t.entryAt? (Spot.place ⟨d, some last⟩) = some x := hx
    rw [isThere, find, hs]
    simp only [hx']
    rfl

theorem fileSpot_eq_ok (h : EndsIn path front last) {place : Place} :
    t.fileSpot path = .ok place ↔
      (hasBadCharacter path = false ∧ last.utf8ByteSize ≤ maxName) ∧
      ∃ d, t.walk (t.start path) front = .ok d ∧ place = d ++ [last] ∧
        t.entryAt? (d ++ [last]) ≠ some .directory := by
  rw [fileSpot]
  cases hs : t.locate path with
  | error f =>
    refine iff_of_false (by simp) ?_
    rintro ⟨hname, d, hw, -⟩
    rw [(locate_eq_ok h).2 ⟨hname, d, hw, rfl⟩] at hs
    cases hs
  | ok s =>
    obtain ⟨hname, d, hw, rfl⟩ := (locate_eq_ok h).1 hs
    simp only [hname, hw, Spot.place, Option.isNone_some, Bool.false_eq_true, false_or,
      Option.toList_some, Except.ok.injEq, exists_eq_left', true_and, and_self]
    split
    · next hd => simp [hd]
    · next hd => simp [hd, eq_comm]

theorem write_eq_ok (h : EndsIn path front last) :
    t.write path c = .ok t' ↔ (hasBadCharacter path = false ∧ last.utf8ByteSize ≤ maxName) ∧
      ∃ d, t.walk (t.start path) front = .ok d ∧ t.entryAt? (d ++ [last]) ≠ some .directory ∧
        t' = t.put (d ++ [last]) (.file c) := by
  rw [write]
  cases hs : t.fileSpot path with
  | error f =>
    refine iff_of_false (by simp [Except.map]) ?_
    rintro ⟨hname, d, hw, hd, -⟩
    rw [(fileSpot_eq_ok h).2 ⟨hname, d, hw, rfl, hd⟩] at hs
    cases hs
  | ok place =>
    obtain ⟨hname, d, hw, rfl, hd⟩ := (fileSpot_eq_ok h).1 hs
    simp only [Except.map, Except.ok.injEq, hname, hw, exists_eq_left', true_and, and_self, ne_eq,
      hd, not_false_eq_true]
    exact eq_comm

/-- What is left behind if the replacing of a file is interrupted: the tree as it was, a beginning
of the directories, or all of them and a draft with any contents. -/
inductive PartlyReplaces (t : Tree) (path : String) : Tree → Prop
  | untouched : PartlyReplaces t path t
  | creating {q : String} {t' : Tree} (hq : parent? path = some q)
    (h : FileStep.Midway t (.ensureDirectory q) t') : PartlyReplaces t path t'
  | drafting {q : String} {t₁ t' : Tree} {part : Content} (hq : parent? path = some q)
    (h : t.ensureDirectory q = (.ok (), t₁)) (hw : t₁.write (draftPath path) part = .ok t') :
    PartlyReplaces t path t'

/-- The directories that are there when the creating ends, well or not. -/
theorem eq_or_midway_of_ensureDirectory {r : Except FileFault Unit}
    (h : t.ensureDirectory q = (r, t')) :
    t' = t ∨ FileStep.Midway t (.ensureDirectory q) t' := by
  rw [ensureDirectory] at h
  split at h
  case isTrue =>
    cases h
    exact .inl rfl
  case isFalse hnot =>
    rw [not_or, Bool.not_eq_true] at hnot
    rw [createDirectories] at h
    split at h
    case isTrue =>
      cases h
      exact .inl rfl
    case isFalse hclean =>
      obtain ⟨front, back, hparts, hc⟩ := exists_front_of_createFrom t (t.start q) (parts q)
      rw [h] at hc
      exact .inr (.creating hnot.1 hnot.2 (by simpa using hclean) hparts hc)

theorem PartlyReplaces.of_ensureDirectory (hq : parent? path = some q)
    {r : Except FileFault Unit} (h : t.ensureDirectory q = (r, t')) :
    PartlyReplaces t path t' := by
  rcases eq_or_midway_of_ensureDirectory h with rfl | hm
  · exact .untouched
  · exact .creating hq hm

theorem replaceSteps_eq (hq : parent? path = some q) (c : Content) :
    replaceSteps path c = [.ensureDirectory q, .write (draftPath path) c,
      .move (draftPath path) path] := by
  rw [replaceSteps, hq]
  rfl

/-- What is there when the directory has been created, and the draft has been written or not. -/
theorem PartlyReplaces.of_write (hq : parent? path = some q) {t₁ : Tree}
    (h : t.ensureDirectory q = (.ok (), t₁)) {r : Except FileFault Unit}
    (hw : (FileStep.write (draftPath path) c).run t₁ = (r, t')) : PartlyReplaces t path t' := by
  rw [FileStep.run] at hw
  split at hw
  · cases hw
    exact .of_ensureDirectory hq h
  · next hwrite =>
    cases hw
    exact .drafting hq h hwrite

/-- What is there after some of the steps, unless they are all done. -/
theorem PartlyReplaces.of_runAll (hq : parent? path = some q) {ran rest : List FileStep}
    (hsteps : replaceSteps path c = ran ++ rest) {r : Except FileFault Unit}
    (h : FileStep.runAll t ran = (r, t')) (hrest : rest ≠ [] ∨ r ≠ .ok ()) :
    PartlyReplaces t path t' := by
  rw [replaceSteps_eq hq] at hsteps
  rcases ran with _ | ⟨s, ran⟩
  · cases h
    exact .untouched
  injection hsteps with hs htail
  subst hs
  rw [FileStep.runAll] at h
  rcases hensure : (FileStep.ensureDirectory q).run t with ⟨f | _, t₁⟩ <;> rw [hensure] at h
  · cases h
    exact .of_ensureDirectory hq hensure
  rcases ran with _ | ⟨s, ran⟩
  · cases h
    exact .of_ensureDirectory hq hensure
  injection htail with hs htail
  subst hs
  simp only [FileStep.runAll] at h
  rcases hwrite : (FileStep.write (draftPath path) c).run t₁ with ⟨f | _, t₂⟩ <;> rw [hwrite] at h
  · cases h
    exact .of_write hq hensure hwrite
  rcases ran with _ | ⟨s, ran⟩
  · cases h
    exact .of_write hq hensure hwrite
  injection htail with hs htail
  subst hs
  obtain ⟨rfl, rfl⟩ := List.append_eq_nil_iff.1 htail.symm
  -- if the draft cannot be moved, it stays
  simp only [FileStep.runAll, FileStep.run] at h
  rcases hmove : t₂.move (draftPath path) path with f | t₃ <;> rw [hmove] at h <;> cases h
  · exact .of_write hq hensure hwrite
  · simp at hrest

theorem replace_eq_of_parent (hq : parent? path = some q) (t : Tree) (c : Content) :
    t.replace path c =
      match t.ensureDirectory q with
      | (.error f, t) => (.error f, t)
      | (.ok (), t) =>
        FileStep.runAll t [.write (draftPath path) c, .move (draftPath path) path] := by
  rw [replace, replaceSteps, hq]
  rfl

theorem start_draftPath (hp : EndsIn path front last) (t : Tree) :
    t.start (draftPath path) = t.start path := by
  obtain ⟨c, r, hc⟩ := List.exists_cons_of_ne_nil (by simpa using hp.ne_empty : path.toList ≠ [])
  rw [start, start, isAbsolute, isAbsolute, draftPath, beside, String.toList_append, hc]
  rfl

theorem concat_ne_draft (d : Place) (last : String) : d ++ [last] ≠ d ++ [last ++ ".tmp"] := by
  intro he
  have := congrArg String.length (List.singleton_injective (List.append_cancel_left he))
  simp at this

end Tree
end Choropleth
