import Mathlib.Data.List.Flatten
import Choropleth.Batch.Generate
import Choropleth.Proofs.Keyed

/-!
# Tiles that have tasks

The tiles of a list have one task for every category. Area types are named in either case, and of
the entries of a list that name one area type differently only the last in the order of their names
is kept: the tiles of the others have no tasks.

* `TileSpec.Prevails`: an entry is the last of those that name its area type;
* `TileSpec.Gathers`: tiles by area types are those of the prevailing entries;
* `TileSpec.gathers_of_parse`: those of a list are;
* `tileTasks_perm`: the tasks are those of the prevailing entries;
* `TileSpec.Covers`: all tiles of all entries have their tasks;
* `tasks_cover_tiles_iff`: they do if every entry with tiles prevails.
-/

namespace Choropleth

variable {spec : TileSpec} {entries : List (String × List Tile)}

theorem AreaType.index_injective {t u : AreaType} (h : t.index = u.index) : t = u := by
  cases t <;> cases u <;> first | rfl | cases h

namespace TileSpec

instance : IsStrictTotalOrder AreaType fun t u => coarser t u = true where
  trichotomous t u h h' := by
    refine AreaType.index_injective ?_
    simp only [coarser, decide_eq_true_eq] at h h'
    omega
  irrefl t := by simp [coarser]
  trans t u v h h' := by
    simp only [coarser, decide_eq_true_eq] at h h' ⊢
    omega

/-- The names of area types in a list, with their tiles. -/
def entries? (text : String) : Option (List (String × List Tile)) :=
  (Json.parse? text).bind (Json.tableOf? (Json.listOf? Tile.ofJson?))

theorem parse_eq (text : String) : parse text =
    match entries? text with
    | none => .error .json
    | some entries => ofNames [] (sortedTable entries) := rfl

theorem exists_parse_eq_ok {text : String} (h : (parse text).toOption.isSome = true) :
    ∃ spec, parse text = .ok spec := by
  cases hspec : parse text with
  | error e =>
    rw [hspec] at h
    cases h
  | ok spec => exact ⟨spec, rfl⟩

/-! ### Prevailing entries -/

/-- The name is the last, in the order of texts, of those that stand for its area type. -/
def Prevails (entries : List (String × List Tile)) (name : String) : Prop :=
  ∀ e ∈ entries, AreaType.parse? e.1 = AreaType.parse? name → e.1 ≤ name

instance (entries : List (String × List Tile)) (name : String) :
    Decidable (Prevails entries name) :=
  inferInstanceAs (Decidable (∀ e ∈ entries, _))

/-- Of the names of an area type only one prevails. -/
theorem Prevails.eq_of_parse?_eq {e e' : String × List Tile} (h : Prevails entries e.1)
    (he : e ∈ entries) (h' : Prevails entries e'.1) (he' : e' ∈ entries)
    (htype : AreaType.parse? e.1 = AreaType.parse? e'.1) : e.1 = e'.1 :=
  le_antisymm (h' e he htype) (h e' he' htype.symm)

/-- The tiles by area types are those of the prevailing entries. -/
structure Gathers (spec : TileSpec) (entries : List (String × List Tile)) : Prop where
  ordered : spec.Pairwise fun p q => coarser p.1 q.1 = true
  get?_eq_some_iff : ∀ t tiles, spec.get? t = some tiles ↔ ∃ name, (name, tiles) ∈ entries ∧
    AreaType.parse? name = some t ∧ Prevails entries name

namespace Gathers

theorem nil : Gathers [] [] := ⟨.nil, by simp⟩

theorem congr {others : List (String × List Tile)} (h : Gathers spec entries)
    (hmem : ∀ e, e ∈ entries ↔ e ∈ others) : Gathers spec others := by
  refine ⟨h.ordered, fun t tiles => ?_⟩
  rw [h.get?_eq_some_iff]
  simp only [Prevails, hmem]

/-- An entry behind all others prevails over those of the same area type. -/
theorem put (h : Gathers spec entries) {name : String} {t : AreaType} (tiles : List Tile)
    (hname : AreaType.parse? name = some t) (hlast : ∀ e ∈ entries, e.1 < name) :
    Gathers (spec.putSorted coarser t tiles) (entries ++ [(name, tiles)]) := by
  refine ⟨Keyed.pairwise_putSorted h.ordered t tiles, fun u us => ?_⟩
  have hprevails (other : String) : Prevails (entries ++ [(name, tiles)]) other ↔
      Prevails entries other ∧ (AreaType.parse? name = AreaType.parse? other → name ≤ other) := by
    simp [Prevails, or_imp, forall_and]
  rw [Keyed.get?_putSorted]
  split
  · next htu =>
    obtain rfl := htu
    constructor
    · rintro ⟨⟩
      exact ⟨name, List.mem_append_right _ (List.mem_singleton_self _), hname,
        (hprevails name).2 ⟨fun e he _ => (hlast e he).le, fun _ => le_rfl⟩⟩
    · rintro ⟨other, hmem, hother, hlater⟩
      have hle : name ≤ other := ((hprevails other).1 hlater).2 (hname.trans hother.symm)
      rcases List.mem_append.1 hmem with hmem | hmem
      · exact absurd hle (hlast _ hmem).not_ge
      · obtain ⟨-, rfl⟩ : other = name ∧ us = tiles := by simpa using hmem
        rfl
  · next htu =>
    rw [h.get?_eq_some_iff]
    -- an entry of another area type stays what it was
    refine exists_congr fun other => ?_
    constructor
    · rintro ⟨hmem, hother, hlater⟩
      refine ⟨List.mem_append_left _ hmem, hother, (hprevails other).2 ⟨hlater, fun he => ?_⟩⟩
      exact absurd (Option.some.inj (hname.symm.trans (he.trans hother))) htu
    · rintro ⟨hmem, hother, hlater⟩
      refine ⟨?_, hother, ((hprevails other).1 hlater).1⟩
      rcases List.mem_append.1 hmem with hmem | hmem
      · exact hmem
      · obtain ⟨rfl, -⟩ : other = name ∧ us = tiles := by simpa using hmem
        exact absurd (Option.some.inj (hname.symm.trans hother)) htu

theorem nodup_keys (h : Gathers spec entries) : (spec.map Prod.fst).Nodup := by
  refine List.pairwise_map.2 (h.ordered.imp fun hlt heq => ?_)
  exact irrefl_of (fun t u => coarser t u = true) _ (heq ▸ hlt)

end Gathers

/-- The area types are gathered entry by entry. -/
theorem gathers_of_ofNames {final : TileSpec} {before rest : List (String × List Tile)}
    (h : Gathers spec before) (horder : Keyed.InOrder (before ++ rest))
    (hfinal : ofNames spec rest = .ok final) :
    Gathers final (before ++ rest) ∧ ∀ e ∈ rest, (AreaType.parse? e.1).isSome = true := by
  induction rest generalizing spec before with
  | nil =>
    obtain rfl := Except.ok.inj hfinal
    exact ⟨by simpa using h, by simp⟩
  | cons e rest ih =>
    obtain ⟨name, tiles⟩ := e
    rw [ofNames] at hfinal
    split at hfinal
    · cases hfinal
    · next t ht =>
      have hlast : ∀ e ∈ before, e.1 < name := fun e he =>
        (List.pairwise_append.1 horder).2.2 e he (name, tiles) List.mem_cons_self
      rw [List.append_cons] at horder ⊢
      obtain ⟨hgathers, hnames⟩ := ih (h.put tiles ht hlast) horder hfinal
      exact ⟨hgathers, List.forall_mem_cons.2 ⟨by simp [ht], hnames⟩⟩

/-! ### Lists of tiles -/

theorem inOrder_sortedTable {α : Type} (entries : List (String × α)) :
    (sortedTable entries).InOrder :=
  Keyed.inOrder_iff.2 (Keyed.pairwise_foldl_putSorted entries .nil)

/-- Entries with different keys are put in order, and none is lost. -/
theorem sortedTable_perm {α : Type} {entries : List (String × α)}
    (h : (entries.map Prod.fst).Nodup) : (sortedTable entries).Perm entries :=
  Keyed.foldl_putSorted_perm entries h

/-- The area types of a list with different names are gathered, and all its names are known. -/
theorem gathers_of_parse {text : String} (h : parse text = .ok spec) :
    ∃ entries, entries? text = some entries ∧ ((entries.map Prod.fst).Nodup →
      Gathers spec entries ∧ ∀ e ∈ entries, (AreaType.parse? e.1).isSome = true) := by
  rw [parse_eq] at h
  split at h
  · cases h
  · next entries hentries =>
    refine ⟨entries, hentries, fun hnodup => ?_⟩
    have hmem (e) : e ∈ sortedTable entries ↔ e ∈ entries := (sortedTable_perm hnodup).mem_iff
    obtain ⟨hgathers, hnames⟩ := gathers_of_ofNames .nil (inOrder_sortedTable entries) h
    exact ⟨hgathers.congr hmem, fun e he => hnames e ((hmem e).2 he)⟩

/-- The entries with the area types that their names stand for. -/
def ofEntries (entries : List (String × List Tile)) : TileSpec :=
  entries.filterMap fun e => (AreaType.parse? e.1).map fun t => (t, e.2)

theorem mem_ofEntries {t : AreaType} {tiles : List Tile} :
    (t, tiles) ∈ ofEntries entries ↔
      ∃ name, (name, tiles) ∈ entries ∧ AreaType.parse? name = some t := by
  simp [ofEntries, List.mem_filterMap]

theorem tiles_ofEntries (h : ∀ e ∈ entries, (AreaType.parse? e.1).isSome = true) :
    (ofEntries entries).flatMap Prod.snd = entries.flatMap Prod.snd := by
  induction entries with
  | nil => rfl
  | cons e entries ih =>
    obtain ⟨he, hentries⟩ := List.forall_mem_cons.1 h
    obtain ⟨t, ht⟩ := Option.isSome_iff_exists.1 he
    rw [ofEntries, List.filterMap_cons_some (by rw [ht]; rfl), List.flatMap_cons,
      List.flatMap_cons, ← ofEntries, ih hentries]

theorem nodup_prevailing (h : (entries.map Prod.fst).Nodup) :
    (ofEntries (entries.filter fun e => Prevails entries e.1)).Nodup := by
  have hkept : (entries.filter fun e => Prevails entries e.1).Pairwise fun e e' =>
      AreaType.parse? e.1 ≠ AreaType.parse? e'.1 := by
    refine ((List.pairwise_map.1 h).filter _).imp_of_mem fun he he' hne htype => ?_
    obtain ⟨hmem, hp⟩ := List.mem_filter.1 he
    obtain ⟨hmem', hp'⟩ := List.mem_filter.1 he'
    exact hne ((of_decide_eq_true hp).eq_of_parse?_eq hmem (of_decide_eq_true hp') hmem' htype)
  refine hkept.filterMap _ ?_
  rintro e e' hne q hq q' hq' rfl
  obtain ⟨t, ht, rfl⟩ := Option.map_eq_some_iff.1 hq
  obtain ⟨t', ht', heq⟩ := Option.map_eq_some_iff.1 hq'
  obtain rfl : t' = t := congrArg Prod.fst heq
  exact hne (ht.trans ht'.symm)

/-- What is gathered are the prevailing entries. -/
theorem Gathers.perm (h : Gathers spec entries) (hnodup : (entries.map Prod.fst).Nodup) :
    spec.Perm (ofEntries (entries.filter fun e => Prevails entries e.1)) := by
  refine (List.perm_ext_iff_of_nodup (h.nodup_keys.of_map _) (nodup_prevailing hnodup)).2
    fun p => ?_
  obtain ⟨t, tiles⟩ := p
  rw [← Keyed.get?_eq_some_iff h.nodup_keys, h.get?_eq_some_iff, mem_ofEntries]
  refine exists_congr fun name => ?_
  rw [List.mem_filter, decide_eq_true_eq]
  tauto

end TileSpec

/-! ### Tasks -/

/-- As many values are left if some lists are left out just if those lists are empty. -/
theorem length_flatMap_filter_eq_iff {α β : Type} (f : α → List β) (p : α → Bool) (as : List α) :
    ((as.filter p).flatMap f).length = (as.flatMap f).length ↔ ∀ a ∈ as, f a ≠ [] → p a = true := by
  induction as with
  | nil => simp
  | cons a as ih =>
    rw [List.flatMap_cons, List.length_append, List.forall_mem_cons, ← ih]
    by_cases ha : p a = true
    · simp [List.filter_cons_of_pos ha, ha]
    · have hle : ((as.filter p).flatMap f).length ≤ (as.flatMap f).length :=
        (List.filter_sublist.flatMap f).length_le
      have hempty : (f a ≠ [] → p a = true) ↔ (f a).length = 0 := by simp [ha]
      rw [List.filter_cons_of_neg ha, hempty]
      omega

theorem mem_tileTasks {categories : List String} {k : TileTask} :
    k ∈ tileTasks spec categories ↔
      ∃ tiles, (k.areaType, tiles) ∈ spec ∧ k.tile ∈ tiles ∧ k.category ∈ categories := by
  obtain ⟨t, tile, c⟩ := k
  simp [tileTasks, List.mem_flatMap]

theorem length_flatMap_map {α β γ : Type} (f : α → β → γ) (as : List α) (bs : List β) :
    (as.flatMap fun a => bs.map (f a)).length = as.length * bs.length := by
  induction as with
  | nil => simp
  | cons a as ih =>
    rw [List.flatMap_cons, List.length_append, ih, List.length_map, List.length_cons,
      Nat.succ_mul, Nat.add_comm]

theorem length_tileTasks (spec : TileSpec) (categories : List String) :
    (tileTasks spec categories).length = (spec.flatMap Prod.snd).length * categories.length := by
  induction spec with
  | nil => simp [tileTasks]
  | cons p spec ih =>
    rw [tileTasks, List.flatMap_cons, List.length_append, length_flatMap_map (TileTask.mk p.1),
      ← tileTasks, ih, List.flatMap_cons, List.length_append, Nat.add_mul]

/-- The tasks are those of the prevailing entries. -/
theorem tileTasks_perm (h : TileSpec.Gathers spec entries)
    (hnodup : (entries.map Prod.fst).Nodup) (categories : List String) :
    (tileTasks spec categories).Perm (tileTasks
      (TileSpec.ofEntries (entries.filter fun e => TileSpec.Prevails entries e.1)) categories) :=
  (h.perm hnodup).flatMap_right _

namespace TileSpec

/-- All tiles of all entries have a task for every category, and the number of tasks is that of
tiles times that of categories. -/
structure Covers (entries : List (String × List Tile)) (categories : List String)
    (tasks : List TileTask) : Prop where
  exists_task : ∀ e ∈ entries, ∀ tile ∈ e.2, ∀ c ∈ categories, ∃ k ∈ tasks,
    AreaType.parse? e.1 = some k.areaType ∧ k.tile = tile ∧ k.category = c
  length_eq : tasks.length = (entries.flatMap Prod.snd).length * categories.length

/-- The tiles of a list are covered if every entry with tiles prevails. -/
theorem Gathers.covers_iff (h : Gathers spec entries) (hnodup : (entries.map Prod.fst).Nodup)
    (hnames : ∀ e ∈ entries, (AreaType.parse? e.1).isSome = true) (categories : List String) :
    Covers entries categories (tileTasks spec categories) ↔
      categories = [] ∨ ∀ e ∈ entries, e.2 ≠ [] → Prevails entries e.1 := by
  have hperm := tileTasks_perm h hnodup categories
  have hkept : ∀ e ∈ entries.filter fun e => Prevails entries e.1,
      (AreaType.parse? e.1).isSome = true := fun e he => hnames e (List.mem_filter.1 he).1
  have hlength : (tileTasks spec categories).length =
      ((entries.filter fun e => Prevails entries e.1).flatMap Prod.snd).length *
        categories.length := by
    rw [hperm.length_eq, length_tileTasks, tiles_ofEntries hkept]
  have htiles : ((entries.filter fun e => Prevails entries e.1).flatMap Prod.snd).length =
      (entries.flatMap Prod.snd).length ↔ ∀ e ∈ entries, e.2 ≠ [] → Prevails entries e.1 := by
    simp only [length_flatMap_filter_eq_iff, decide_eq_true_eq]
  constructor
  · intro hcovers
    rw [or_iff_not_imp_left, ← htiles]
    intro hne
    refine Nat.eq_of_mul_eq_mul_right (List.length_pos_iff.2 hne) ?_
    rw [← hlength, hcovers.length_eq]
  · rintro (rfl | hall)
    · exact ⟨by simp, by simp [hlength]⟩
    · refine ⟨fun e he tile htile c hc => ?_, by rw [hlength, htiles.2 hall]⟩
      obtain ⟨t, ht⟩ := Option.isSome_iff_exists.1 (hnames e he)
      refine ⟨⟨t, tile, c⟩, hperm.mem_iff.2 (mem_tileTasks.2 ⟨e.2, ?_, htile, hc⟩), ht, rfl, rfl⟩
      have hprevails := hall e he (List.ne_nil_of_mem htile)
      exact mem_ofEntries.2 ⟨e.1, List.mem_filter.2 ⟨he, by simpa using hprevails⟩, ht⟩

end TileSpec

/-- **Which tiles have tasks.** The tasks of an accepted list with different names are those of the
prevailing entries: those whose names are the last, in the order of texts, of the names of their
area types. All tiles are covered if there are no categories or if every entry with tiles
prevails, and otherwise some are lost. -/
theorem tasks_cover_tiles_iff {text : String} {spec : TileSpec}
    (h : TileSpec.parse text = .ok spec) (categories : List String) :
    ∃ entries, TileSpec.entries? text = some entries ∧ ((entries.map Prod.fst).Nodup →
      (∀ e ∈ entries, (AreaType.parse? e.1).isSome = true) ∧
        (tileTasks spec categories).Perm (tileTasks (TileSpec.ofEntries
          (entries.filter fun e => TileSpec.Prevails entries e.1)) categories) ∧
        (TileSpec.Covers entries categories (tileTasks spec categories) ↔
          categories = [] ∨ ∀ e ∈ entries, e.2 ≠ [] → TileSpec.Prevails entries e.1)) := by
  obtain ⟨entries, hentries, hgathers⟩ := TileSpec.gathers_of_parse h
  refine ⟨entries, hentries, fun hnodup => ?_⟩
  obtain ⟨hgathers, hnames⟩ := hgathers hnodup
  exact ⟨hnames, tileTasks_perm hgathers hnodup categories,
    hgathers.covers_iff hnodup hnames categories⟩

/-- Two area types with one tile each, both of them covered. -/
theorem tasks_cover_two_tiles :
    let text := "\x7b\"LSOA\":[[\"a\",[0,0,0,0]]],\"oa\":[[\"b\",[0,0,0,0]]]\x7d"
    ∃ spec entries, TileSpec.parse text = .ok spec ∧ TileSpec.entries? text = some entries ∧
      (entries.map Prod.fst).Nodup ∧ TileSpec.Covers entries ["C"] (tileTasks spec ["C"]) ∧
        (tileTasks spec ["C"]).length = 2 := by
  intro text
  have hshape : (TileSpec.entries? text).map (fun es =>
      (es.map Prod.fst, (es.flatMap Prod.snd).length)) = some (["LSOA", "oa"], 2) := by
    decide +kernel
  have hok : (TileSpec.parse text).toOption.isSome = true := by decide +kernel
  obtain ⟨spec, hspec⟩ := TileSpec.exists_parse_eq_ok hok
  obtain ⟨entries, hentries, htasks⟩ := tasks_cover_tiles_iff hspec ["C"]
  rw [hentries, Option.map_some, Option.some.injEq, Prod.mk.injEq] at hshape
  obtain ⟨hkeys, hcount⟩ := hshape
  have hnodup : (entries.map Prod.fst).Nodup := by
    rw [hkeys]
    decide
  have hprevails : ∀ n ∈ entries.map Prod.fst, ∀ n' ∈ entries.map Prod.fst,
      AreaType.parse? n' = AreaType.parse? n → n' ≤ n := by
    rw [hkeys]
    decide
  obtain ⟨-, -, hcovers⟩ := htasks hnodup
  have hall := hcovers.2 (.inr fun e he _ e' he' =>
    hprevails e.1 (List.mem_map_of_mem he) e'.1 (List.mem_map_of_mem he'))
  exact ⟨spec, entries, hspec, hentries, hnodup, hall, by rw [hall.length_eq, hcount]; rfl⟩

/-- Of two entries for one area type the second takes the place of the first, whose tile is lost. -/
theorem tile_of_other_case_lost :
    let text := "\x7b\"LSOA\":[[\"a\",[0,0,0,0]]],\"lsoa\":[[\"b\",[0,0,0,0]]]\x7d"
    ∃ spec entries, TileSpec.parse text = .ok spec ∧ TileSpec.entries? text = some entries ∧
      (entries.map Prod.fst).Nodup ∧ ¬TileSpec.Covers entries ["C"] (tileTasks spec ["C"]) := by
  intro text
  have hshape : (TileSpec.entries? text).map (fun es =>
      (es.map Prod.fst, (es.flatMap Prod.snd).length)) = some (["LSOA", "lsoa"], 2) := by
    decide +kernel
  have hkept : (TileSpec.parse text).toOption.map (fun spec => (spec.flatMap Prod.snd).length) =
      some 1 := by decide +kernel
  have hok : (TileSpec.parse text).toOption.isSome = true := by
    rw [← Option.isSome_map, hkept]
    rfl
  obtain ⟨spec, hspec⟩ := TileSpec.exists_parse_eq_ok hok
  obtain ⟨entries, hentries, -⟩ := TileSpec.gathers_of_parse hspec
  rw [hentries, Option.map_some, Option.some.injEq, Prod.mk.injEq] at hshape
  obtain ⟨hkeys, hcount⟩ := hshape
  refine ⟨spec, entries, hspec, hentries, by rw [hkeys]; decide, fun hcovers => ?_⟩
  -- one task stands against two tiles
  have hone : (spec.flatMap Prod.snd).length = 1 := by
    simpa [hspec, Except.toOption] using hkept
  have hlength := hcovers.length_eq
  rw [length_tileTasks, hone, hcount] at hlength
  cases hlength

end Choropleth
