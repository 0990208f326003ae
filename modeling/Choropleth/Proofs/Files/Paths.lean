import Choropleth.Files.Tree
import Choropleth.Proofs.Text.Cutting

/-!
# Names along a path

A path leads to the same place whatever empty parts and single dots it has, so only its names count.

* `Path.named`: the names along a path;
* `Path.IsName`: what can be the name of a file;
* `Path.exists_parts_join`, `Path.exists_parts_append`: a name in a directory, and more at the end
  of a path;
* `Path.exists_parent?_of_named`, `Path.exists_parent?_join`: back to the directory.
-/

namespace Choropleth
namespace Path

/-- The parts of a path that do not stand for the directory they are in. -/
def named (path : String) : List String := (parts path).filter fun p => !isHere p

/-- What can be the name of a file or directory. -/
structure IsName (name : String) : Prop where
  slash : '/' ∉ name.toList
  here : isHere name = false
  up : name ≠ ".."
  short : name.utf8ByteSize ≤ Tree.maxName
  clean : Tree.hasBadCharacter name = false

theorem parts_of_not_mem {p : String} (hp : '/' ∉ p.toList) : parts p = [p] := by
  simp [parts, Text.pieces_of_not_mem hp]

theorem parts_append_slash (d p : String) : parts (d ++ "/" ++ p) = parts d ++ parts p := by
  have h : (d ++ "/" ++ p).toList = d.toList ++ '/' :: p.toList := by simp
  rw [parts, h, Text.pieces_append_sep, List.map_append]
  rfl

@[simp] theorem named_empty : named "" = [] := rfl

theorem isAbsolute_eq_false {p : String} (hp : '/' ∉ p.toList) : isAbsolute p = false := by
  simp only [isAbsolute, decide_eq_false_iff_not]
  exact fun h => hp (List.mem_of_mem_head? h)

/-- A name in a directory is the last part of the path, behind the names of the directory. -/
theorem exists_parts_join (d : String) {p : String} (hp : '/' ∉ p.toList) :
    ∃ front, parts (join d p) = front ++ [p] ∧ front.filter (fun p => !isHere p) = named d := by
  rw [join, isAbsolute_eq_false hp, if_neg Bool.false_ne_true]
  by_cases hd : d = ""
  · subst hd
    exact ⟨[], by simp [parts_of_not_mem hp], rfl⟩
  by_cases hlast : d.toList.getLast? = some '/'
  · obtain ⟨front, hfront⟩ := List.getLast?_eq_some_iff.1 hlast
    have hjoin : (d ++ p).toList = front ++ '/' :: p.toList := by simp [hfront]
    refine ⟨(Text.pieces '/' front).map String.ofList, ?_, ?_⟩
    · rw [if_pos (.inr hlast), parts, hjoin, Text.pieces_append_sep, List.map_append,
        Text.pieces_of_not_mem hp]
      simp
    · rw [named, parts, hfront, Text.pieces_append_sep, List.map_append, List.filter_append]
      simp [isHere]
  · refine ⟨parts d, ?_, rfl⟩
    rw [if_neg (by simp [hd, hlast]), parts_append_slash, parts_of_not_mem hp]

theorem named_join (d : String) {p : String} (hp : IsName p) :
    named (join d p) = named d ++ [p] := by
  obtain ⟨front, hparts, hfront⟩ := exists_parts_join d hp.slash
  rw [← hfront, named, hparts, List.filter_append]
  simp [hp.here]

theorem isAbsolute_join (d : String) {p : String} (hp : '/' ∉ p.toList) :
    isAbsolute (join d p) = isAbsolute d := by
  rw [join, isAbsolute_eq_false hp, if_neg Bool.false_ne_true]
  by_cases hd : d = ""
  · subst hd
    simpa [isAbsolute] using isAbsolute_eq_false hp
  · obtain ⟨c, r, hc⟩ := List.exists_cons_of_ne_nil (by simpa using hd : d.toList ≠ [])
    split <;> simp [isAbsolute, hc]

theorem hasBadCharacter_append (d p : String) :
    Tree.hasBadCharacter (d ++ p) = (Tree.hasBadCharacter d || Tree.hasBadCharacter p) := by
  simp [Tree.hasBadCharacter, List.any_append]

theorem hasBadCharacter_join {d p : String} (hd : Tree.hasBadCharacter d = false)
    (hp : Tree.hasBadCharacter p = false) : Tree.hasBadCharacter (join d p) = false := by
  rw [join]
  split
  · exact hp
  split
  · simp [hasBadCharacter_append, hd, hp]
  · simp only [hasBadCharacter_append, hd, hp, Bool.or_false, Bool.false_or]
    decide

/-- More at the end of a name in a directory. -/
theorem beside_join (d : String) {p ending : String} (hp : '/' ∉ p.toList)
    (he : '/' ∉ ending.toList) : beside (join d p) ending = join d (p ++ ending) := by
  have h : '/' ∉ (p ++ ending).toList := by simp [hp, he]
  rw [beside, join, join, isAbsolute_eq_false hp, isAbsolute_eq_false h,
    if_neg Bool.false_ne_true, if_neg Bool.false_ne_true]
  split <;> simp only [String.append_assoc]

theorem named_slash_append (p : String) : named ("/" ++ p) = named p := by
  have h := parts_append_slash "" p
  rw [String.empty_append] at h
  rw [named, h, List.filter_append]
  rfl

/-- Names are found again in the path that they are joined to. -/
theorem named_joinStrings {names : List String}
    (h : ∀ n ∈ names, '/' ∉ n.toList ∧ isHere n = false) :
    named (Text.joinStrings "/" names) = names := by
  by_cases hne : names = []
  · subst hne
    rfl
  · have hparts : parts (Text.joinStrings "/" names) = names := by
      rw [parts, Text.joinStrings, String.toList_ofList]
      rw [show "/".toList = ['/'] from rfl, Text.pieces_joinWith (by simpa using hne)]
      · simp
      · simpa using fun n hn => (h n hn).1
    rw [named, hparts, List.filter_eq_self]
    simpa using fun n hn => (h n hn).2

theorem isAbsolute_slash_append (p : String) : isAbsolute ("/" ++ p) = true := by
  simp [isAbsolute]

theorem isAbsolute_joinStrings {names : List String}
    (h : ∀ n ∈ names, '/' ∉ n.toList ∧ isHere n = false) :
    isAbsolute (Text.joinStrings "/" names) = false := by
  rcases names with _ | ⟨n, names⟩
  · rfl
  · obtain ⟨hslash, hhere⟩ := h n List.mem_cons_self
    have hne : n.toList ≠ [] := by
      intro hn
      obtain rfl : n = "" := by simpa using hn
      cases hhere
    obtain ⟨c, r, hc⟩ := List.exists_cons_of_ne_nil hne
    have hc' : c ≠ '/' := fun e => hslash (by simp [hc, e])
    cases names <;> simp [isAbsolute, Text.joinStrings, Text.joinWith, hc, hc']

theorem hasBadCharacter_eq_false {p : String} :
    Tree.hasBadCharacter p = false ↔ ∀ c ∈ p.toList, c.toNat ≠ 0 := by
  simp [Tree.hasBadCharacter]

theorem of_mem_named {d n : String} (h : n ∈ named d) :
    '/' ∉ n.toList ∧ isHere n = false ∧ ∀ c ∈ n.toList, c ∈ d.toList := by
  obtain ⟨hn, hhere⟩ := List.mem_filter.1 h
  obtain ⟨chars, hchars, rfl⟩ := List.mem_map.1 hn
  rw [String.toList_ofList]
  exact ⟨Text.not_mem_of_mem_pieces hchars, by simpa using hhere,
    fun c hc => Text.mem_of_mem_pieces hchars hc⟩

theorem hasBadCharacter_joinStrings {names : List String}
    (h : ∀ n ∈ names, Tree.hasBadCharacter n = false) :
    Tree.hasBadCharacter (Text.joinStrings "/" names) = false := by
  refine hasBadCharacter_eq_false.2 fun c hc => ?_
  rw [Text.joinStrings, String.toList_ofList] at hc
  rcases Text.mem_joinWith hc with hc | ⟨n, hn, hc⟩
  · obtain rfl : c = '/' := by simpa using hc
    decide
  · obtain ⟨n, hn', rfl⟩ := List.mem_map.1 hn
    exact hasBadCharacter_eq_false.1 (h n hn') c hc

/-- More without a slash belongs to the last part. -/
theorem exists_parts_append (p : String) {ending : String} (he : '/' ∉ ending.toList) :
    ∃ front last, parts p = front ++ [last] ∧ parts (p ++ ending) = front ++ [last ++ ending] := by
  obtain ⟨front, last, hp, hpe⟩ := Text.exists_pieces_append p.toList he
  refine ⟨front.map String.ofList, String.ofList last, by simp [parts, hp], ?_⟩
  rw [parts, String.toList_append, hpe]
  simp

/-- The directory that a path lies in, written out of its names. -/
theorem exists_parent?_of_named {p n : String} {names : List String}
    (h : named p = names ++ [n]) :
    ∃ q, parent? p = some q ∧ named q = names ∧ isAbsolute q = isAbsolute p ∧
      (Tree.hasBadCharacter p = false → Tree.hasBadCharacter q = false) := by
  have hmem : ∀ n ∈ names, n ∈ named p := fun n hn => h ▸ List.mem_append_left _ hn
  have hnames : ∀ n ∈ names, '/' ∉ n.toList ∧ isHere n = false := fun n hn =>
    ⟨(of_mem_named (hmem n hn)).1, (of_mem_named (hmem n hn)).2.1⟩
  have hclean : Tree.hasBadCharacter p = false →
      Tree.hasBadCharacter (Text.joinStrings "/" names) = false := fun hp =>
    hasBadCharacter_joinStrings fun n hn => hasBadCharacter_eq_false.2 fun c hc =>
      hasBadCharacter_eq_false.1 hp c ((of_mem_named (hmem n hn)).2.2 c hc)
  have hfilter : ((parts p).filter fun p => !isHere p) = names ++ [n] := h
  have hparent : parent? p =
      some ((if isAbsolute p then "/" else "") ++ Text.joinStrings "/" names) := by
    rw [parent?, hfilter]
    split
    case h_1 h => simp at h
    case h_2 => rw [List.dropLast_concat]
  refine ⟨_, hparent, ?_⟩
  cases isAbsolute p with
  | true =>
    rw [if_pos rfl, named_slash_append, named_joinStrings hnames, isAbsolute_slash_append]
    refine ⟨rfl, rfl, fun hp => ?_⟩
    rw [hasBadCharacter_append, hclean hp, Bool.or_false]
    decide
  | false =>
    rw [if_neg Bool.false_ne_true, String.empty_append]
    exact ⟨named_joinStrings hnames, isAbsolute_joinStrings hnames, hclean⟩

/-- The directory of a name in a directory. -/
theorem exists_parent?_join {d p : String} (hp : IsName p)
    (hd : Tree.hasBadCharacter d = false) :
    ∃ q, parent? (join d p) = some q ∧ named q = named d ∧ isAbsolute q = isAbsolute d ∧
      Tree.hasBadCharacter q = false := by
  obtain ⟨q, hparent, hnamed, habs, hclean⟩ := exists_parent?_of_named (named_join d hp)
  exact ⟨q, hparent, hnamed, habs.trans (isAbsolute_join d hp.slash),
    hclean (hasBadCharacter_join hd hp.clean)⟩

end Path
end Choropleth
