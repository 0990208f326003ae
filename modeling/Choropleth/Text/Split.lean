/-!
# Cutting and joining texts

* `pieces`: the texts between the separators, in order; `n` separators give `n + 1` pieces;
* `joinWith`: texts with a separator between neighbours; it undoes `pieces`;
* `ellipsisPieces`: the texts between the marks `...`, found from left to right.
-/

namespace Choropleth
namespace Text

/-- Puts a character in front of the first text. -/
def consFirst (c : Char) : List (List Char) → List (List Char)
  | [] => [[c]]
  | p :: ps => (c :: p) :: ps

/-- The texts between the occurrences of `sep`. -/
def pieces (sep : Char) : List Char → List (List Char)
  | [] => [[]]
  | c :: r => if c = sep then [] :: pieces sep r else consFirst c (pieces sep r)

/-- The texts with `sep` between neighbours. -/
def joinWith (sep : List Char) : List (List Char) → List Char
  | [] => []
  | [p] => p
  | p :: q :: ps => p ++ sep ++ joinWith sep (q :: ps)

@[simp] theorem pieces_nil (sep : Char) : pieces sep [] = [[]] := rfl

theorem pieces_ne_nil (sep : Char) (s : List Char) : pieces sep s ≠ [] := by
  induction s with
  | nil => simp [pieces]
  | cons c r ih =>
    by_cases h : c = sep
    · simp [pieces, h]
    · obtain ⟨p, ps, hp⟩ := List.exists_cons_of_ne_nil ih
      simp [pieces, h, hp, consFirst]

/-- Joining the pieces gives the text back. -/
theorem joinWith_pieces (sep : Char) (s : List Char) : joinWith [sep] (pieces sep s) = s := by
  induction s with
  | nil => rfl
  | cons c r ih =>
    obtain ⟨p, ps, hp⟩ := List.exists_cons_of_ne_nil (pieces_ne_nil sep r)
    by_cases h : c = sep
    · subst h
      simp [pieces, hp, joinWith, hp ▸ ih]
    · rw [hp] at ih
      cases ps with
      | nil => simp_all [pieces, consFirst, joinWith]
      | cons q qs => simp_all [pieces, consFirst, joinWith]

/-- No piece holds the separator. -/
theorem not_mem_of_mem_pieces {sep : Char} {s p : List Char} (h : p ∈ pieces sep s) : sep ∉ p := by
  induction s generalizing p with
  | nil => simp_all [pieces]
  | cons c r ih =>
    obtain ⟨q, qs, hq⟩ := List.exists_cons_of_ne_nil (pieces_ne_nil sep r)
    by_cases hc : c = sep
    · simp only [pieces, hc, if_true, List.mem_cons] at h
      rcases h with rfl | h
      · simp
      · exact ih h
    · simp only [pieces, hc, if_false, hq, consFirst, List.mem_cons] at h
      rcases h with rfl | h
      · have := ih (p := q) (by simp [hq])
        simp only [List.mem_cons, not_or]
        exact ⟨fun e => hc e.symm, this⟩
      · exact ih (by simp [hq, h])

/-- The texts between the marks `...`, each mark being taken as early as possible. -/
def ellipsisPieces : List Char → List (List Char)
  | '.' :: '.' :: '.' :: r => [] :: ellipsisPieces r
  | c :: r => consFirst c (ellipsisPieces r)
  | [] => [[]]

/-- The strings with `sep` between neighbours. -/
def joinStrings (sep : String) (parts : List String) : String :=
  String.ofList (joinWith sep.toList (parts.map String.toList))

end Text
end Choropleth
