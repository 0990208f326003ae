import Choropleth.Proofs.Files.Replacing

/-!
# What replacements leave

A file that is replaced is never there in part, whenever this stops, and no other file changes,
except for drafts. When the file has been replaced, its draft is gone.

* `Tree.LeadsTo`: the place that a path leads to;
* `Tree.IsDraft`: the place of a draft;
* `Tree.Grows`: files have been written, all of them completely, and nothing is gone but drafts;
* `Tree.KeepsDrafts`: no draft has come, and none is left beside a file that has been written;
* `Tree.PartlyReplaces.grows`: how a tree grows if the replacing of a file is interrupted;
* `Tree.replaced`: what replacing a file comes to.
-/

namespace Choropleth
namespace Tree

open Choropleth.Path

variable {t t' t'' : Tree} {d : Place} {path last n : String} {front : List String} {c : Content}
  {made : String → Content → Prop}

/-- The place that a path leads to, whether there is something or not. -/
def LeadsTo (t : Tree) (path : String) (place : Place) : Prop :=
  ∃ s, t.locate path = .ok s ∧ s.place = place

theorem KeepsDirectories.locate_eq_ok (h : KeepsDirectories t t') {s : Spot}
    (hs : t.locate path = .ok s) : t'.locate path = .ok s := by
  rw [locate] at hs ⊢
  split at hs
  · cases hs
  next hne =>
  split at hs
  · cases hs
  next hclean =>
  rw [if_neg hne, if_neg hclean]
  cases hw : t.walk (t.start path) (parts path).dropLast with
  | error f => simp [hw] at hs
  | ok d =>
    rw [h.start_eq, h.walk_eq_ok hw]
    rw [hw] at hs
    simp only [spot] at hs ⊢
    split
    · next hname =>
      rw [if_pos hname] at hs
      cases he : t.enter d ((parts path).getLast?.getD "") with
      | error f => simp [he, Except.map] at hs
      | ok e =>
        rw [h.enter_eq_ok he]
        rwa [he] at hs
    · next hname => rwa [if_neg hname] at hs

theorem LeadsTo.mono (h : t.LeadsTo path d) (ht : KeepsDirectories t t') : t'.LeadsTo path d := by
  obtain ⟨s, hs, hd⟩ := h
  exact ⟨s, ht.locate_eq_ok hs, hd⟩

/-- The place of a draft. -/
def IsDraft (place : Place) : Prop := ∃ d n, place = d ++ [n ++ ".tmp"]

theorem isDraft_concat : IsDraft (d ++ [n]) ↔ ∃ m, n = m ++ ".tmp" := by
  constructor
  · rintro ⟨e, m, he⟩
    exact ⟨m, List.singleton_injective (List.append_inj' he rfl).2⟩
  · rintro ⟨m, rfl⟩
    exact ⟨d, m, rfl⟩

/-! ### Written files -/

/-- Files have been written, each of them made for a path that leads to its place, and nothing is
gone. Only drafts may have come, changed or gone otherwise. -/
structure Grows (made : String → Content → Prop) (t t' : Tree) : Prop
    extends KeepsDirectories t t' where
  files : ∀ place c, ¬IsDraft place → t.entryAt? place = some (.file c) →
    ∃ c', t'.entryAt? place = some (.file c')
  complete : ∀ place c, ¬IsDraft place → t'.entryAt? place = some (.file c) →
    t.entryAt? place = some (.file c) ∨ ∃ path, made path c ∧ t'.LeadsTo path place

theorem Grows.refl (made : String → Content → Prop) (t : Tree) : Grows made t t :=
  ⟨.refl t, fun _ c _ h => ⟨c, h⟩, fun _ _ _ h => .inl h⟩

theorem Grows.trans (h : Grows made t t') (h' : Grows made t' t'') : Grows made t t'' where
  toKeepsDirectories := h.toKeepsDirectories.trans h'.toKeepsDirectories
  files := fun place c hd hc =>
    let ⟨c', hc'⟩ := h.files place c hd hc
    h'.files place c' hd hc'
  complete := by
    intro place c hd hc
    rcases h'.complete place c hd hc with hc' | hmade
    · refine (h.complete place c hd hc').imp_right ?_
      rintro ⟨path, hmade, hleads⟩
      exact ⟨path, hmade, hleads.mono h'.toKeepsDirectories⟩
    · exact .inr hmade

theorem Extends.grows (h : Extends t t') : Grows made t t' :=
  ⟨h.keepsDirectories, fun place c _ hc => ⟨c, h.kept place (.file c) hc⟩, fun place c _ hc =>
    .inl (h.files place c hc)⟩

theorem grows_put_draft (hd : t.entryAt? (d ++ [n ++ ".tmp"]) ≠ some .directory) (c : Content) :
    Grows made t (t.put (d ++ [n ++ ".tmp"]) (.file c)) where
  toKeepsDirectories := keepsDirectories_put hd _
  files := by
    rintro place c' hp hc
    exact ⟨c', by rwa [entryAt?_put_of_ne (by rintro rfl; exact hp ⟨d, n, rfl⟩)]⟩
  complete := by
    rintro place c' hp hc
    rw [entryAt?_put_of_ne (by rintro rfl; exact hp ⟨d, n, rfl⟩)] at hc
    exact .inl hc

theorem grows_erase_draft (hd : t.entryAt? (d ++ [n ++ ".tmp"]) ≠ some .directory) :
    Grows made t (t.erase (d ++ [n ++ ".tmp"])) where
  toKeepsDirectories := keepsDirectories_erase hd
  files := by
    rintro place c' hp hc
    exact ⟨c', by rwa [entryAt?_erase_of_ne (by rintro rfl; exact hp ⟨d, n, rfl⟩)]⟩
  complete := by
    rintro place c' hp hc
    rw [entryAt?_erase_of_ne (by rintro rfl; exact hp ⟨d, n, rfl⟩)] at hc
    exact .inl hc

theorem grows_put (hd : t.entryAt? (d ++ [n]) ≠ some .directory) (hc : made path c)
    (hleads : t.LeadsTo path (d ++ [n])) : Grows made t (t.put (d ++ [n]) (.file c)) where
  toKeepsDirectories := keepsDirectories_put hd _
  files := by
    intro place c' _ hc'
    by_cases he : place = d ++ [n]
    · exact ⟨c, by rw [he, entryAt?_put_self (by simp)]⟩
    · exact ⟨c', by rwa [entryAt?_put_of_ne he]⟩
  complete := by
    intro place c' _ hc'
    by_cases he : place = d ++ [n]
    · subst he
      rw [entryAt?_put_self (by simp)] at hc'
      cases hc'
      exact .inr ⟨path, hc, hleads.mono (keepsDirectories_put hd _)⟩
    · rw [entryAt?_put_of_ne he] at hc'
      exact .inl hc'

/-- What is there stays there, except for drafts. -/
theorem Grows.isThere (h : Grows made t t') (hp : EndsIn path front last)
    (hlast : ∀ m, last ≠ m ++ ".tmp") (hthere : t.isThere path = true) :
    t'.isThere path = true := by
  obtain ⟨hname, d, x, hw, hx⟩ := (isThere_iff hp).1 hthere
  have hw' := h.toKeepsDirectories.walk_eq_ok hw
  rw [← h.toKeepsDirectories.start_eq] at hw'
  cases x with
  | directory => exact (isThere_iff hp).2 ⟨hname, d, _, hw', h.kept _ hx⟩
  | file c =>
    obtain ⟨c', hc'⟩ := h.files _ c (fun hd => (isDraft_concat.1 hd).elim hlast) hx
    exact (isThere_iff hp).2 ⟨hname, d, _, hw', hc'⟩

/-! ### Drafts -/

/-- Every draft that is left has been there before, unchanged, and so has the file beside it if
there is one. -/
structure KeepsDrafts (t t' : Tree) : Prop where
  drafts : ∀ d n c, t'.entryAt? (d ++ [n ++ ".tmp"]) = some (.file c) →
    t.entryAt? (d ++ [n ++ ".tmp"]) = some (.file c)
  files : ∀ d n c c', t'.entryAt? (d ++ [n ++ ".tmp"]) = some (.file c) →
    t'.entryAt? (d ++ [n]) = some (.file c') → t.entryAt? (d ++ [n]) = some (.file c')

theorem KeepsDrafts.refl (t : Tree) : KeepsDrafts t t :=
  ⟨fun _ _ _ h => h, fun _ _ _ _ _ h => h⟩

theorem KeepsDrafts.trans (h : KeepsDrafts t t') (h' : KeepsDrafts t' t'') : KeepsDrafts t t'' :=
  ⟨fun d n c hc => h.drafts d n c (h'.drafts d n c hc), fun d n c c' hc hc' =>
    h.files d n c c' (h'.drafts d n c hc) (h'.files d n c c' hc hc')⟩

theorem Extends.keepsDrafts (h : Extends t t') : KeepsDrafts t t' :=
  ⟨fun _ _ c hc => h.files _ c hc, fun _ _ _ c' _ hc' => h.files _ c' hc'⟩

/-- A file takes the place of its draft. -/
theorem keepsDrafts_move (hlast : ∀ m, last ≠ m ++ ".tmp") (c c' : Content) :
    KeepsDrafts t (((t.put (d ++ [last ++ ".tmp"]) (.file c')).erase
      (d ++ [last ++ ".tmp"])).put (d ++ [last]) (.file c)) := by
  generalize ht' : ((t.put (d ++ [last ++ ".tmp"]) (.file c')).erase
    (d ++ [last ++ ".tmp"])).put (d ++ [last]) (.file c) = t'
  have hgone : t'.entryAt? (d ++ [last ++ ".tmp"]) = none := by
    rw [← ht', entryAt?_put_of_ne (by simp), entryAt?_erase_self (by simp)]
  have hkept (place : Place) (hp : place ≠ d ++ [last]) (x : Entry)
      (hx : t'.entryAt? place = some x) : t.entryAt? place = some x := by
    have hne : place ≠ d ++ [last ++ ".tmp"] := by
      rintro rfl
      rw [hgone] at hx
      cases hx
    rwa [← ht', entryAt?_put_of_ne hp, entryAt?_erase_of_ne hne, entryAt?_put_of_ne hne] at hx
  refine ⟨fun e n x hx => hkept _ (fun he => ?_) _ hx,
    fun e n x y hx hy => hkept _ (fun he => ?_) _ hy⟩
  · exact hlast n (List.singleton_injective (List.append_inj' he rfl).2).symm
  · obtain ⟨rfl, hn⟩ := List.append_inj' he rfl
    obtain rfl := List.singleton_injective hn
    rw [hgone] at hx
    cases hx

/-! ### Replacements -/

/-- Up to an interruption only directories and a draft are added. -/
theorem PartlyReplaces.grows (h : PartlyReplaces t path t') (hp : EndsIn path front last) :
    Grows made t t' := by
  cases h with
  | untouched => exact .refl made t
  | creating _ h =>
    cases h with
    | creating _ _ _ _ hc => exact (extends_of_createFrom hc).grows
  | @drafting q t₁ _ part _ h hw =>
    obtain ⟨-, d, -, hd, rfl⟩ := (write_eq_ok hp.draftPath).1 hw
    exact (extends_of_ensureDirectory h).grows.trans (grows_put_draft hd part)

/-- A draft is moved to the place of its file. -/
theorem exists_of_move_draft (hp : EndsIn path front last)
    (hw : t.walk (t.start path) front = .ok d)
    (hc : t.entryAt? (d ++ [last ++ ".tmp"]) = some (.file c))
    (h : t.move (draftPath path) path = .ok t') :
    t.entryAt? (d ++ [last]) ≠ some .directory ∧ t.LeadsTo path (d ++ [last]) ∧
      t' = (t.erase (d ++ [last ++ ".tmp"])).put (d ++ [last]) (.file c) := by
  rw [move] at h
  cases hsource : t.fileSpot (draftPath path) with
  | error f => simp [hsource] at h
  | ok source =>
    obtain ⟨hname, d', hw', rfl, -⟩ := (fileSpot_eq_ok hp.draftPath).1 hsource
    rw [start_draftPath hp] at hw'
    obtain rfl := Except.ok.inj (hw.symm.trans hw')
    have hread : t.read (draftPath path) = .ok c := by
      have hs := (locate_eq_ok hp.draftPath).2
        ⟨hname, d, by rwa [start_draftPath hp], rfl⟩
      have hc' : t.entryAt? (Spot.place ⟨d, some (last ++ ".tmp")⟩) = some (.file c) := hc
      simp only [read, find, hs, hc']
    rw [hsource, hread] at h
    cases htarget : t.fileSpot path with
    | error f => simp [htarget, Except.map] at h
    | ok target =>
      obtain ⟨hname', d', hw', rfl, hd⟩ := (fileSpot_eq_ok hp).1 htarget
      obtain rfl := Except.ok.inj (hw.symm.trans hw')
      refine ⟨hd, ⟨_, (locate_eq_ok hp).2 ⟨hname', d, hw, rfl⟩, rfl⟩, ?_⟩
      simpa [htarget, Except.map] using h.symm

theorem PartlyReplaces.isSound (h : PartlyReplaces t path t') (hp : EndsIn path front last)
    (hs : t.IsSound) : t'.IsSound := by
  cases h with
  | untouched => exact hs
  | creating _ h =>
    cases h with
    | creating _ _ _ _ hc => exact hs.of_createFrom (hs.start_directory _) hc
  | @drafting q t₁ _ part _ h hw =>
    obtain ⟨-, d, hwalk, hd, rfl⟩ := (write_eq_ok hp.draftPath).1 hw
    have hs₁ := hs.of_ensureDirectory h
    exact hs₁.put (hs₁.walk_directory (hs₁.start_directory _) hwalk) fun hx => absurd hx hd

/-- The steps by which a file has been replaced, in terms of places. -/
theorem exists_of_replace (hp : EndsIn path front last) (h : t.replace path c = (.ok (), t')) :
    ∃ q t₁ d, parent? path = some q ∧ t.ensureDirectory q = (.ok (), t₁) ∧
      t₁.walk (t₁.start path) front = .ok d ∧
      t₁.entryAt? (d ++ [last ++ ".tmp"]) ≠ some .directory ∧
      t₁.entryAt? (d ++ [last]) ≠ some .directory ∧
      (t₁.put (d ++ [last ++ ".tmp"]) (.file c)).LeadsTo path (d ++ [last]) ∧
      t' = ((t₁.put (d ++ [last ++ ".tmp"]) (.file c)).erase (d ++ [last ++ ".tmp"])).put
        (d ++ [last]) (.file c) := by
  obtain ⟨q, hq, -, -⟩ := hp.exists_parent?
  rw [replace_eq_of_parent hq] at h
  rcases hensure : t.ensureDirectory q with ⟨f | _, t₁⟩ <;> rw [hensure] at h
  · cases h
  simp only [FileStep.runAll, FileStep.run] at h
  cases hwrite : t₁.write (draftPath path) c with
  | error f => simp [hwrite] at h
  | ok t₂ =>
    rw [hwrite] at h
    obtain ⟨-, d, hw, hd, rfl⟩ := (write_eq_ok hp.draftPath).1 hwrite
    rw [start_draftPath hp] at hw
    have hkeeps := keepsDirectories_put hd (.file c)
    cases hmove : (t₁.put (d ++ [last ++ ".tmp"]) (.file c)).move (draftPath path) path with
    | error f => simp [hmove] at h
    | ok t₃ =>
      have hw' := hkeeps.walk_eq_ok hw
      rw [← hkeeps.start_eq] at hw'
      obtain ⟨hfile, hleads, rfl⟩ :=
        exists_of_move_draft hp hw' (entryAt?_put_self (by simp) _) hmove
      rw [entryAt?_put_of_ne (concat_ne_draft d last)] at hfile
      obtain rfl : _ = t' := by simpa [hmove] using h
      exact ⟨q, t₁, d, hq, hensure, hw, hd, hfile, hleads, rfl⟩

/-- **What replacing a file comes to**: the file is there, no other file but drafts has changed, and
its draft is gone. -/
theorem replaced (hp : EndsIn path front last) (hlast : ∀ m, last ≠ m ++ ".tmp") (hs : t.IsSound)
    (hmade : made path c) (h : t.replace path c = (.ok (), t')) :
    t'.IsSound ∧ Grows made t t' ∧ KeepsDrafts t t' ∧ t'.isThere path = true := by
  obtain ⟨q, t₁, d, hq, hensure, hw, hdraft, hfile, hleads, rfl⟩ := exists_of_replace hp h
  obtain ⟨s, hlocate, -⟩ := id hleads
  obtain ⟨hname, -⟩ := (locate_eq_ok hp).1 hlocate
  have hs₁ := hs.of_ensureDirectory hensure
  have hext := extends_of_ensureDirectory hensure
  have hdir : t₁.entryAt? d = some .directory :=
    hs₁.walk_directory (hs₁.start_directory path) hw
  have hne := concat_ne_draft d last
  -- the draft is written, then it goes, and then the file comes
  generalize ht₂ : t₁.put (d ++ [last ++ ".tmp"]) (.file c) = t₂
  have hdraft₂ : t₂.entryAt? (d ++ [last ++ ".tmp"]) ≠ some .directory := by
    rw [← ht₂, entryAt?_put_self (by simp)]
    simp
  have hfile₂ : (t₂.erase (d ++ [last ++ ".tmp"])).entryAt? (d ++ [last]) ≠ some .directory := by
    rwa [entryAt?_erase_of_ne hne, ← ht₂, entryAt?_put_of_ne hne]
  have hwritten : Grows made t₁ t₂ := ht₂ ▸ grows_put_draft hdraft c
  have herased : Grows made t₂ (t₂.erase (d ++ [last ++ ".tmp"])) := grows_erase_draft hdraft₂
  have hmoved := grows_put hfile₂ hmade ((ht₂ ▸ hleads).mono herased.toKeepsDirectories)
  have hgrows := (hwritten.trans herased).trans hmoved
  have hw' := hgrows.toKeepsDirectories.walk_eq_ok hw
  rw [← hgrows.toKeepsDirectories.start_eq] at hw'
  refine ⟨?_, hext.grows.trans hgrows, hext.keepsDrafts.trans (ht₂ ▸ keepsDrafts_move hlast c c),
    (isThere_iff hp).2 ⟨hname, d, _, hw', entryAt?_put_self (by simp) _⟩⟩
  have hs₂ : t₂.IsSound := ht₂ ▸ hs₁.put hdir fun hx => absurd hx hdraft
  exact (hs₂.erase hdraft₂).put ((hwritten.trans herased).kept _ hdir) fun hx => absurd hx hfile₂

end Tree
end Choropleth
