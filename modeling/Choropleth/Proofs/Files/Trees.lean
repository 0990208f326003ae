import Choropleth.Files.Replace
import Choropleth.Proofs.Files.Paths
import Choropleth.Proofs.Keyed

/-!
# Walking and changing trees

* `Tree.IsEmptyAt`: a path leads to an empty directory;
* `Tree.KeepsDirectories`: whatever is found along directories is found again;
* `Tree.Opens`: the directories along some names are there, and nothing else has changed;
* `Tree.exists_ensureDirectory`: creating directories where no file is in the way;
* `Tree.find_join`, `Tree.write_join`, `Tree.move_join`: files in a directory that is there.
-/

namespace Choropleth
namespace Tree

open Choropleth.Path

variable {t t' : Tree} {d e : Place} {names : List String} {n : String}

@[simp] theorem entryAt?_root : t.entryAt? [] = some .directory := rfl

theorem entryAt?_put_self {place : Place} (hp : place ≠ []) (x : Entry) :
    (t.put place x).entryAt? place = some x := by
  simp [entryAt?, put, hp, Keyed.get?_put]

theorem entryAt?_put_of_ne {place other : Place} (h : other ≠ place) (x : Entry) :
    (t.put place x).entryAt? other = t.entryAt? other := by
  simp [entryAt?, put, Keyed.get?_put, h.symm]

theorem entryAt?_erase_self {place : Place} (hp : place ≠ []) : (t.erase place).entryAt? place = none := by
  rw [entryAt?, if_neg hp, erase, Keyed.get?_filter_ne, if_pos rfl]

theorem entryAt?_erase_of_ne {place other : Place} (h : other ≠ place) :
    (t.erase place).entryAt? other = t.entryAt? other := by
  rw [entryAt?, entryAt?, erase, Keyed.get?_filter_ne, if_neg h]

/-! ### Walking -/

theorem enter_of_isHere {part : String} (h : isHere part = true) : t.enter d part = .ok d := by
  simp [enter, h]

theorem enter_name (hn : IsName n) :
    t.enter d n =
      match t.entryAt? (d ++ [n]) with
      | some .directory => .ok (d ++ [n])
      | some (.file _) => .error .notADirectory
      | none => .error .missing := by
  have hhere : ¬isHere n = true := by simp [hn.here]
  unfold enter
  refine (if_neg hhere).trans ((if_neg hn.up).trans ((if_neg (Nat.not_lt.2 hn.short)).trans ?_))
  rcases t.entryAt? (d ++ [n]) with _ | _ | _ <;> rfl

theorem walk_cons {part : String} {parts : List String} (h : t.enter d part = .ok e) :
    t.walk d (part :: parts) = t.walk e parts := by
  rw [walk, h]

theorem walk_filter (parts : List String) :
    t.walk d (parts.filter fun p => !isHere p) = t.walk d parts := by
  induction parts generalizing d with
  | nil => rfl
  | cons part parts ih =>
    cases hp : isHere part with
    | true => rw [List.filter_cons_of_neg (by simp [hp]), ih, walk_cons (enter_of_isHere hp)]
    | false =>
      rw [List.filter_cons_of_pos (by simp [hp]), walk, walk]
      cases t.enter d part with
      | error => rfl
      | ok e => exact ih

theorem walk_append_of_walk {parts : List String} (h : t.walk d parts = .ok e)
    (more : List String) : t.walk d (parts ++ more) = t.walk e more := by
  induction parts generalizing d with
  | nil =>
    cases h
    rfl
  | cons part parts ih =>
    rw [walk] at h
    cases hd : t.enter d part with
    | error => simp [hd] at h
    | ok d' =>
      rw [hd] at h
      rw [List.cons_append, walk_cons hd]
      exact ih h

/-- The beginnings of a list of names, without the empty one. -/
theorem forall_front_cons {P : List String → Prop} :
    (∀ front, front ≠ [] → front <+: n :: names → P front) ↔
      P [n] ∧ ∀ front, front ≠ [] → front <+: names → P (n :: front) := by
  constructor
  · intro h
    exact ⟨h [n] (by simp) (by simp), fun front _ hfront =>
      h (n :: front) (by simp) (List.cons_prefix_cons.2 ⟨rfl, hfront⟩)⟩
  · rintro ⟨hone, hmore⟩ front hne hfront
    obtain rfl | ⟨rest, rfl, hrest⟩ := List.prefix_cons_iff.1 hfront
    · exact absurd rfl hne
    · by_cases hr : rest = []
      · exact hr ▸ hone
      · exact hmore rest hr hrest

/-- Walking along names succeeds if there is a directory at every one of them. -/
theorem walk_names_eq_ok (hn : ∀ n ∈ names, IsName n) :
    t.walk d names = .ok e ↔ e = d ++ names ∧
      ∀ front, front ≠ [] → front <+: names → t.entryAt? (d ++ front) = some .directory := by
  induction names generalizing d with
  | nil =>
    have hnone : ∀ front : List String, front ≠ [] → front <+: [] →
        t.entryAt? (d ++ front) = some .directory :=
      fun front hne hfront => absurd (List.prefix_nil.1 hfront) hne
    rw [walk, List.append_nil, and_iff_left hnone, Except.ok.injEq, eq_comm]
  | cons n names ih =>
    obtain ⟨hname, hnames⟩ := List.forall_mem_cons.1 hn
    have henter := enter_name (t := t) (d := d) hname
    rw [forall_front_cons (P := fun front => t.entryAt? (d ++ front) = some .directory)]
    rcases hp : t.entryAt? (d ++ [n]) with _ | _ | c
    · simp [walk, henter, hp]
    · rw [hp] at henter
      rw [walk_cons henter, ih hnames]
      simp
    · simp [walk, henter, hp]

/-! ### Keeping directories -/

/-- Paths start at the same place, and all directories are still there. -/
structure KeepsDirectories (t t' : Tree) : Prop where
  home : t'.home = t.home
  kept : ∀ place, t.entryAt? place = some .directory → t'.entryAt? place = some .directory

theorem KeepsDirectories.refl (t : Tree) : KeepsDirectories t t := ⟨rfl, fun _ h => h⟩

theorem KeepsDirectories.trans {t'' : Tree} (h : KeepsDirectories t t')
    (h' : KeepsDirectories t' t'') : KeepsDirectories t t'' :=
  ⟨h'.home.trans h.home, fun place hp => h'.kept place (h.kept place hp)⟩

theorem KeepsDirectories.start_eq (h : KeepsDirectories t t') (path : String) :
    t'.start path = t.start path := by
  rw [start, start, h.home]

theorem KeepsDirectories.enter_eq_ok (h : KeepsDirectories t t') {part : String}
    (he : t.enter d part = .ok e) : t'.enter d part = .ok e := by
  rw [enter] at he ⊢
  by_cases hhere : isHere part = true
  · rwa [if_pos hhere] at he ⊢
  by_cases hup : part = ".."
  · rwa [if_neg hhere, if_pos hup] at he ⊢
  by_cases hlong : maxName < part.utf8ByteSize
  · rw [if_neg hhere, if_neg hup, if_pos hlong] at he
    cases he
  rw [if_neg hhere, if_neg hup, if_neg hlong] at he ⊢
  rcases hp : t.entryAt? (d ++ [part]) with _ | _ | c
  · simp [hp] at he
  · rw [h.kept _ hp]
    rwa [hp] at he
  · simp [hp] at he

theorem KeepsDirectories.walk_eq_ok (h : KeepsDirectories t t') {parts : List String}
    (hw : t.walk d parts = .ok e) : t'.walk d parts = .ok e := by
  induction parts generalizing d with
  | nil => exact hw
  | cons part parts ih =>
    rw [walk] at hw
    cases hd : t.enter d part with
    | error => simp [hd] at hw
    | ok d' =>
      rw [hd] at hw
      rw [walk_cons (h.enter_eq_ok hd)]
      exact ih hw

theorem keepsDirectories_put {place : Place} (h : t.entryAt? place ≠ some .directory) (x : Entry) :
    KeepsDirectories t (t.put place x) where
  home := rfl
  kept := by
    intro other ho
    rwa [entryAt?_put_of_ne (by rintro rfl; exact h ho)]

theorem keepsDirectories_erase {place : Place} (h : t.entryAt? place ≠ some .directory) :
    KeepsDirectories t (t.erase place) where
  home := rfl
  kept := by
    intro other ho
    rwa [entryAt?_erase_of_ne (by rintro rfl; exact h ho)]

/-- A path leads to an empty directory. -/
structure IsEmptyAt (t : Tree) (path : String) (place : Place) : Prop where
  clean : hasBadCharacter path = false
  leads : t.walk (t.start path) (parts path) = .ok place
  empty : ∀ rest, rest ≠ [] → t.entryAt? (place ++ rest) = none

theorem IsEmptyAt.walk_named {path : String} (h : IsEmptyAt t path d) :
    t.walk (t.start path) (named path) = .ok d := by
  rw [named, walk_filter, h.leads]

/-! ### Creating directories -/

/-- The directories from a place along some names are there, and nothing else has changed. -/
structure Opens (d : Place) (names : List String) (t t' : Tree) : Prop where
  home : t'.home = t.home
  opened : ∀ front, front ≠ [] → front <+: names → t'.entryAt? (d ++ front) = some .directory
  kept : ∀ place, (∀ front, front ≠ [] → front <+: names → place ≠ d ++ front) →
    t'.entryAt? place = t.entryAt? place

/-- No file is in the way from a place along some names. -/
def IsFree (t : Tree) (d : Place) (names : List String) : Prop :=
  ∀ front c, front ≠ [] → front <+: names → t.entryAt? (d ++ front) ≠ some (.file c)

theorem Opens.keepsDirectories (h : Opens d names t t') : KeepsDirectories t t' where
  home := h.home
  kept := by
    intro place hp
    by_cases hway : ∃ front, front ≠ [] ∧ front <+: names ∧ place = d ++ front
    · obtain ⟨front, hne, hfront, rfl⟩ := hway
      exact h.opened front hne hfront
    · rw [h.kept place fun front hne hfront he => hway ⟨front, hne, hfront, he⟩, hp]

/-- If the directories are there already, nothing changes. -/
theorem opens_self (h : t.walk d names = .ok e) (hn : ∀ n ∈ names, IsName n) :
    Opens d names t t :=
  ⟨rfl, ((walk_names_eq_ok hn).1 h).2, fun _ _ => rfl⟩

theorem createFrom_cons_of_enter {part : String} {parts : List String}
    (h : t.enter d part = .ok e) : t.createFrom d (part :: parts) = t.createFrom e parts := by
  rw [createFrom, h]

theorem createFrom_filter (parts : List String) :
    t.createFrom d (parts.filter fun p => !isHere p) = t.createFrom d parts := by
  induction parts generalizing t d with
  | nil => rfl
  | cons part parts ih =>
    cases hp : isHere part with
    | true =>
      rw [List.filter_cons_of_neg (by simp [hp]), ih,
        createFrom_cons_of_enter (enter_of_isHere hp)]
    | false =>
      rw [List.filter_cons_of_pos (by simp [hp]), createFrom, createFrom]
      cases t.enter d part with
      | error f => cases f <;> first | rfl | exact ih
      | ok e => exact ih

theorem createFrom_append_of_walk {parts : List String} (h : t.walk d parts = .ok e)
    (more : List String) : t.createFrom d (parts ++ more) = t.createFrom e more := by
  induction parts generalizing d with
  | nil =>
    cases h
    rfl
  | cons part parts ih =>
    rw [walk] at h
    cases hd : t.enter d part with
    | error => simp [hd] at h
    | ok d' =>
      rw [hd] at h
      rw [List.cons_append, createFrom_cons_of_enter hd]
      exact ih h

theorem isFree_cons : IsFree t d (n :: names) ↔
    (∀ c, t.entryAt? (d ++ [n]) ≠ some (.file c)) ∧ IsFree t (d ++ [n]) names := by
  have h : (∀ front, front ≠ [] → front <+: n :: names →
      ∀ c, t.entryAt? (d ++ front) ≠ some (.file c)) ↔ _ := forall_front_cons
  simp only [IsFree, List.append_assoc, List.singleton_append] at h ⊢
  grind

theorem Opens.cons {t₁ : Tree} (h : Opens d [n] t t₁) (h' : Opens (d ++ [n]) names t₁ t') :
    Opens d (n :: names) t t' where
  home := h'.home.trans h.home
  opened := by
    refine forall_front_cons.2 ⟨?_, fun front hne hfront => ?_⟩
    · exact h'.keepsDirectories.kept _ (h.opened [n] (by simp) List.prefix_rfl)
    · simpa using h'.opened front hne hfront
  kept := by
    intro place hplace
    obtain ⟨hone, hmore⟩ := forall_front_cons.1 hplace
    rw [h'.kept place fun front hne hfront => by simpa using hmore front hne hfront]
    refine h.kept place fun front hne hfront => ?_
    obtain rfl | ⟨rest, rfl, hrest⟩ := List.prefix_cons_iff.1 hfront
    · exact absurd rfl hne
    · rwa [List.prefix_nil.1 hrest]

theorem opens_put (d : Place) (n : String) (t : Tree) :
    Opens d [n] t (t.put (d ++ [n]) .directory) where
  home := rfl
  opened := by
    refine forall_front_cons.2 ⟨entryAt?_put_self (by simp) _, fun front hne hfront => ?_⟩
    exact absurd (List.prefix_nil.1 hfront) hne
  kept := fun place hplace => entryAt?_put_of_ne (hplace [n] (by simp) List.prefix_rfl) _

/-- Where no file is in the way, the directories along some names can be created. -/
theorem exists_createFrom (hn : ∀ n ∈ names, IsName n) (hf : IsFree t d names) :
    ∃ t', t.createFrom d names = (.ok (), t') ∧ Opens d names t t' := by
  induction names generalizing t d with
  | nil => exact ⟨t, rfl, opens_self rfl hn⟩
  | cons n names ih =>
    obtain ⟨hname, hnames⟩ := List.forall_mem_cons.1 hn
    obtain ⟨hone, hmore⟩ := isFree_cons.1 hf
    have henter := enter_name (t := t) (d := d) hname
    rcases hp : t.entryAt? (d ++ [n]) with _ | _ | c
    · -- the first directory is missing, so it is put there
      rw [hp] at henter
      have hfree : IsFree (t.put (d ++ [n]) .directory) (d ++ [n]) names := by
        intro front c hne hfront
        rw [entryAt?_put_of_ne (by simpa using hne)]
        exact hmore front c hne hfront
      obtain ⟨t', hcreate, hopens⟩ := ih hnames hfree
      exact ⟨t', by rw [createFrom, henter]; exact hcreate, (opens_put d n t).cons hopens⟩
    · rw [hp] at henter
      obtain ⟨t', hcreate, hopens⟩ := ih hnames hmore
      refine ⟨t', by rw [createFrom_cons_of_enter henter, hcreate], Opens.cons ?_ hopens⟩
      exact opens_self (by rw [walk_cons henter]; rfl) (by simpa using hname)
    · exact absurd hp (hone c)

/-! ### Files in a directory -/

theorem start_join (p : String) (hn : IsName n) : t.start (join p n) = t.start p := by
  rw [start, start, isAbsolute_join p hn.slash]

theorem spot_name (hn : IsName n) : t.spot d n = .ok ⟨d, some n⟩ := by
  rw [spot, if_neg (by simp [hn.here, hn.up]), if_neg (Nat.not_lt.2 hn.short)]

/-- The spot of a name in a directory. -/
theorem locate_join {p : String} (hp : hasBadCharacter p = false) (hn : IsName n) :
    t.locate (join p n) = (t.walk (t.start p) (named p)).map fun d => ⟨d, some n⟩ := by
  obtain ⟨front, hparts, hfront⟩ := exists_parts_join p hn.slash
  have hne : join p n ≠ "" := by
    intro h
    have := named_join p hn
    simp [h, named_empty] at this
  rw [locate, if_neg hne, hasBadCharacter_join hp hn.clean, if_neg Bool.false_ne_true,
    start_join p hn, hparts, List.dropLast_concat, List.getLast?_concat, ← hfront, walk_filter]
  cases t.walk (t.start p) front with
  | error => rfl
  | ok d => exact spot_name hn

/-- What is found under a name in a directory that is there. -/
theorem find_join {p : String} (hp : hasBadCharacter p = false) (hn : IsName n)
    (hw : t.walk (t.start p) (named p) = .ok d) :
    t.find (join p n) =
      match t.entryAt? (d ++ [n]) with
      | none => .error .missing
      | some x => .ok x := by
  rw [find, locate_join hp hn, hw]
  rfl

theorem exists_locate_of_isThere {path : String} (h : t.isThere path = true) :
    ∃ s x, t.locate path = .ok s ∧ t.entryAt? s.place = some x := by
  rw [isThere, find] at h
  cases hs : t.locate path with
  | error f =>
    rw [hs] at h
    cases h
  | ok s =>
    rw [hs] at h
    cases hx : t.entryAt? s.place with
    | none =>
      simp only [hx] at h
      cases h
    | some x => exact ⟨s, x, rfl, hx⟩

/-- If there is something under a name in a directory, the directory is there. -/
theorem exists_of_isThere_join {p : String} (hp : hasBadCharacter p = false) (hn : IsName n)
    (h : t.isThere (join p n) = true) :
    ∃ d x, t.walk (t.start p) (named p) = .ok d ∧ t.entryAt? (d ++ [n]) = some x := by
  obtain ⟨s, x, hs, hx⟩ := exists_locate_of_isThere h
  rw [locate_join hp hn] at hs
  cases hw : t.walk (t.start p) (named p) with
  | error f => simp [hw, Except.map] at hs
  | ok d =>
    obtain rfl : (⟨d, some n⟩ : Spot) = s := by simpa [hw, Except.map] using hs
    exact ⟨d, x, rfl, hx⟩

theorem fileSpot_join {p : String} (hp : hasBadCharacter p = false) (hn : IsName n)
    (hw : t.walk (t.start p) (named p) = .ok d) (hd : t.entryAt? (d ++ [n]) ≠ some .directory) :
    t.fileSpot (join p n) = .ok (d ++ [n]) := by
  rw [fileSpot, locate_join hp hn, hw]
  exact if_neg (by simp [Spot.place, hd])

theorem write_join {p : String} (hp : hasBadCharacter p = false) (hn : IsName n)
    (hw : t.walk (t.start p) (named p) = .ok d) (hd : t.entryAt? (d ++ [n]) ≠ some .directory)
    (c : Content) : t.write (join p n) c = .ok (t.put (d ++ [n]) (.file c)) := by
  rw [write, fileSpot_join hp hn hw hd]
  rfl

/-- Moving a file within a directory that is there: it takes the place of an older one, and it fails
only if there is no file to move. -/
theorem move_join {p m : String} (hp : hasBadCharacter p = false) (hn : IsName n) (hm : IsName m)
    (hw : t.walk (t.start p) (named p) = .ok d) (hs : t.entryAt? (d ++ [n]) ≠ some .directory)
    (ht : t.entryAt? (d ++ [m]) ≠ some .directory) :
    t.move (join p n) (join p m) =
      match t.entryAt? (d ++ [n]) with
      | some (.file c) => .ok ((t.erase (d ++ [n])).put (d ++ [m]) (.file c))
      | _ => .error .missing := by
  rw [move, fileSpot_join hp hn hw hs, read, find_join hp hn hw]
  rcases hx : t.entryAt? (d ++ [n]) with _ | _ | c
  · rfl
  · exact absurd hx hs
  · simp only [fileSpot_join hp hm hw ht]
    rfl

/-! ### The directory of a file -/

/-- A spot is one part further than a directory. -/
theorem exists_of_locate {q : String} {s : Spot} (h : t.locate q = .ok s) :
    ∃ front last e, parts q = front ++ [last] ∧ t.walk (t.start q) front = .ok e ∧
      t.spot e last = .ok s := by
  obtain ⟨front, last, hparts⟩ : ∃ front last, parts q = front ++ [last] :=
    (List.eq_nil_or_concat' (parts q)).resolve_left (by simp [parts, Text.pieces_ne_nil])
  rw [locate, hparts, List.dropLast_concat, List.getLast?_concat] at h
  split at h
  case isTrue => cases h
  split at h
  case isTrue => cases h
  cases hw : t.walk (t.start q) front with
  | error f => simp [hw] at h
  | ok e =>
    rw [hw, Option.getD_some] at h
    exact ⟨front, last, e, hparts, hw, h⟩

/-- One name further than along directories, where there is something and no file. -/
theorem walk_concat_of_entry {x : Entry} (hw : t.walk d names = .ok e)
    (hn : ∀ m ∈ names ++ [n], IsName m) (hf : IsFree t d (names ++ [n]))
    (hx : t.entryAt? (e ++ [n]) = some x) : t.walk d (names ++ [n]) = .ok (e ++ [n]) := by
  obtain ⟨rfl, -⟩ := (walk_names_eq_ok fun m hm => hn m (List.mem_append_left _ hm)).1 hw
  rcases x with _ | c
  · have henter : t.enter (d ++ names) n = .ok (d ++ names ++ [n]) := by
      rw [enter_name (hn n (by simp)), hx]
    rw [walk_append_of_walk hw, walk_cons henter]
    rfl
  · rw [List.append_assoc] at hx
    exact absurd hx (hf _ c (by simp) List.prefix_rfl)

/-- If a path leads to something, and no file is in the way, then it leads along directories. -/
theorem walk_of_isThere {q : String} {base : List String} (hthere : t.isThere q = true)
    (hbase : t.walk (t.start q) base = .ok d) (hnamed : named q = base ++ names)
    (hne : names ≠ []) (hn : ∀ n ∈ names, IsName n) (hf : IsFree t d names) :
    ∃ e, t.walk d names = .ok e := by
  obtain ⟨s, x, hs, hx⟩ := exists_locate_of_isThere hthere
  obtain ⟨front, last, e, hparts, hw, hspot⟩ := exists_of_locate hs
  rw [← walk_filter] at hw
  rw [named, hparts, List.filter_append] at hnamed
  by_cases hlast : isHere last = true
  · -- the last part does not count
    rw [List.filter_cons_of_neg (by simp [hlast]), List.filter_nil, List.append_nil] at hnamed
    rw [hnamed, walk_append_of_walk hbase] at hw
    exact ⟨e, hw⟩
  · obtain ⟨names, n, rfl⟩ := (List.eq_nil_or_concat' names).resolve_left hne
    rw [List.filter_cons_of_pos (by simp [hlast]), List.filter_nil, ← List.append_assoc] at hnamed
    obtain ⟨hfront, hn'⟩ := List.append_inj' hnamed rfl
    obtain rfl : last = n := by simpa using hn'
    rw [hfront, walk_append_of_walk hbase] at hw
    obtain rfl : (⟨e, some last⟩ : Spot) = s := by
      simpa [spot_name (hn last (by simp))] using hspot
    exact ⟨_, walk_concat_of_entry hw hn hf hx⟩

/-- The directory that a path lies in is created where no file is in the way. -/
theorem exists_ensureDirectory {q : String} {base : List String}
    (hq : hasBadCharacter q = false) (hbase : t.walk (t.start q) base = .ok d)
    (hnamed : named q = base ++ names) (hne : names ≠ []) (hn : ∀ n ∈ names, IsName n)
    (hf : IsFree t d names) :
    ∃ t', t.ensureDirectory q = (.ok (), t') ∧ Opens d names t t' := by
  have hcreate : t.createDirectories q = t.createFrom d names := by
    rw [createDirectories, hq, if_neg Bool.false_ne_true, ← createFrom_filter, ← named, hnamed,
      createFrom_append_of_walk hbase]
  rw [ensureDirectory]
  split
  case isFalse => exact hcreate ▸ exists_createFrom hn hf
  case isTrue hthere =>
    have hnot : q ≠ "" := by
      rintro rfl
      rw [named_empty] at hnamed
      exact hne (List.append_eq_nil_iff.1 hnamed.symm).2
    obtain ⟨e, hw⟩ := walk_of_isThere (hthere.resolve_left hnot) hbase hnamed hne hn hf
    exact ⟨t, rfl, opens_self hw hn⟩

end Tree
end Choropleth
