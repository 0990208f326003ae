import Mathlib.Data.List.Sort
import Mathlib.Data.String.Basic
import Choropleth.Proofs.Text.Cutting
import Choropleth.Request.Key

/-!
# Lines of canonical texts

A line of a canonical text is given by the set of its values. The set can be read from the line if
the values are not empty and without commas, and the lines can be read from the text if it is known
how many line feeds each of them has.

* `canonicalValues`: the values of a line, in order and once each;
* `canonicalLine_congr`: equal sets of values give equal lines;
* `mem_of_canonicalLine_eq`: equal lines have equal sets of values;
* `lines_eq_of_flatten_append_eq`: cutting a text into lines of known numbers of line feeds.
-/

namespace Choropleth

/-! ### Values of a line -/

/-- The values of a line as it has them: in ascending order and without repetitions. -/
def canonicalValues (values : List String) : List String := withoutRepeats (ascending values)

theorem mem_withoutRepeats {s : String} {l : List String} : s ∈ withoutRepeats l ↔ s ∈ l := by
  induction l with
  | nil => rfl
  | cons t l ih =>
    rw [List.mem_cons, ← ih, withoutRepeats]
    cases hl : withoutRepeats l with
    | nil => simp
    | cons u r =>
      by_cases h : t = u
      · simp [h]
      · simp [h]

theorem mem_canonicalValues {s : String} {values : List String} :
    s ∈ canonicalValues values ↔ s ∈ values := by
  rw [canonicalValues, mem_withoutRepeats, ascending, List.mem_mergeSort]

theorem pairwise_withoutRepeats {l : List String} (h : l.Pairwise (· ≤ ·)) :
    (withoutRepeats l).Pairwise (· < ·) := by
  induction l with
  | nil => exact .nil
  | cons s l ih =>
    obtain ⟨hs, hl⟩ := List.pairwise_cons.1 h
    have hr := ih hl
    have hle (t) (ht : t ∈ withoutRepeats l) : s ≤ t := hs t (mem_withoutRepeats.1 ht)
    rw [withoutRepeats]
    cases hw : withoutRepeats l with
    | nil => exact List.pairwise_singleton _ _
    | cons t r =>
      rw [hw] at hr hle
      by_cases hst : s = t
      · simpa [hst] using hr
      · have ht : s < t := lt_of_le_of_ne (hle t List.mem_cons_self) hst
        simp only [hst, if_false]
        refine List.pairwise_cons.2 ⟨fun u hu => ?_, hr⟩
        rcases List.mem_cons.1 hu with rfl | hu
        · exact ht
        · exact ht.trans ((List.pairwise_cons.1 hr).1 u hu)

theorem pairwise_canonicalValues (values : List String) :
    (canonicalValues values).Pairwise (· < ·) := by
  refine pairwise_withoutRepeats ?_
  have hsorted : (values.mergeSort fun s t => decide (s ≤ t)).Pairwise
      fun s t => decide (s ≤ t) = true :=
    List.pairwise_mergeSort (fun _ _ _ => by simpa using le_trans)
      (fun s t => by simpa using le_total s t) values
  simpa [ascending] using hsorted

/-- A line has the same values whatever the order in which they come and however often. -/
theorem canonicalValues_congr {vs ws : List String} (h : ∀ s, s ∈ vs ↔ s ∈ ws) :
    canonicalValues vs = canonicalValues ws := by
  have hvs := pairwise_canonicalValues vs
  have hws := pairwise_canonicalValues ws
  refine List.Perm.eq_of_pairwise' hvs hws ?_
  refine (List.perm_ext_iff_of_nodup (hvs.imp fun h => h.ne) (hws.imp fun h => h.ne)).2 fun s => ?_
  rw [mem_canonicalValues, mem_canonicalValues, h s]

@[simp] theorem canonicalValues_singleton (s : String) : canonicalValues [s] = [s] := by
  simp [canonicalValues, ascending, withoutRepeats]

@[simp] theorem canonicalValues_nil : canonicalValues [] = [] := by
  simp [canonicalValues, ascending, withoutRepeats]

/-! ### Lines -/

/-- The values of a line with commas between them. -/
def joinedValues (values : List String) : List Char :=
  Text.joinWith [','] ((canonicalValues values).map String.toList)

theorem toList_canonicalLine (name : String) (values : List String) :
    (canonicalLine name values).toList =
      name.toList ++ '=' :: (joinedValues values ++ ['\n']) := by
  simp [canonicalLine, Text.joinStrings, joinedValues, canonicalValues]

theorem canonicalLine_congr {vs ws : List String} (h : ∀ s, s ∈ vs ↔ s ∈ ws) (name : String) :
    canonicalLine name vs = canonicalLine name ws := by
  rw [← String.toList_inj, toList_canonicalLine, toList_canonicalLine, joinedValues, joinedValues,
    canonicalValues_congr h]

theorem joinedValues_eq_of_canonicalLine_eq {name : String} {vs ws : List String}
    (h : canonicalLine name vs = canonicalLine name ws) : joinedValues vs = joinedValues ws := by
  have h := String.toList_inj.2 h
  rw [toList_canonicalLine, toList_canonicalLine] at h
  exact List.append_cancel_right (List.cons.inj (List.append_cancel_left h)).2

/-- A line with a single value has this value, whatever it is. -/
theorem eq_of_canonicalLine_singleton_eq {name s t : String}
    (h : canonicalLine name [s] = canonicalLine name [t]) : s = t := by
  have := joinedValues_eq_of_canonicalLine_eq h
  exact String.toList_inj.1 (by simpa [joinedValues, Text.joinWith] using this)

/-- Equal lines have equal sets of values. -/
theorem mem_of_canonicalLine_eq {name : String} {vs ws : List String}
    (hv : ∀ s ∈ vs, s ≠ "" ∧ ',' ∉ s.toList) (hw : ∀ s ∈ ws, s ≠ "" ∧ ',' ∉ s.toList)
    (h : canonicalLine name vs = canonicalLine name ws) (s : String) : s ∈ vs ↔ s ∈ ws := by
  have hparts {vs : List String} (hv : ∀ s ∈ vs, s ≠ "" ∧ ',' ∉ s.toList) :
      ∀ p ∈ (canonicalValues vs).map String.toList, p ≠ [] ∧ ',' ∉ p := by
    intro p hp
    obtain ⟨t, ht, rfl⟩ := List.mem_map.1 hp
    have := hv t (mem_canonicalValues.1 ht)
    exact ⟨by simpa using this.1, this.2⟩
  have hjoined := Text.joinWith_injective (hparts hv) (hparts hw)
    (joinedValues_eq_of_canonicalLine_eq h)
  have hvalues := List.map_injective_iff.2 (fun _ _ => String.toList_inj.1) hjoined
  rw [← mem_canonicalValues, hvalues, mem_canonicalValues]

/-- A line ends in a line feed. -/
theorem canonicalLine_ends (name : String) (values : List String) :
    ∃ u, (canonicalLine name values).toList = u ++ ['\n'] :=
  ⟨name.toList ++ '=' :: joinedValues values, by simp [toList_canonicalLine]⟩

theorem newline_not_mem_joinedValues {values : List String} (h : ∀ s ∈ values, '\n' ∉ s.toList) :
    '\n' ∉ joinedValues values := by
  intro hm
  rcases Text.mem_joinWith hm with hc | ⟨p, hp, hc⟩
  · simp at hc
  · obtain ⟨s, hs, rfl⟩ := List.mem_map.1 hp
    exact h s (mem_canonicalValues.1 hs) hc

/-! ### Texts of several lines -/

/-- A text is cut into lines and a rest in one way only, once it is known how many line feeds each
line has. -/
theorem lines_eq_of_flatten_append_eq {c : Char} {ls ms : List (List Char)} {s t : List Char}
    (hl : ∀ l ∈ ls, ∃ u, l = u ++ [c]) (hm : ∀ m ∈ ms, ∃ u, m = u ++ [c])
    (hc : ls.map (List.count c) = ms.map (List.count c)) (h : ls.flatten ++ s = ms.flatten ++ t) :
    ls = ms ∧ s = t := by
  induction ls generalizing ms with
  | nil =>
    obtain rfl : ms = [] := by simpa using hc.symm
    exact ⟨rfl, h⟩
  | cons l ls ih =>
    cases ms with
    | nil => simp at hc
    | cons m ms =>
      obtain ⟨hlm, hrest⟩ := List.cons.inj hc
      obtain ⟨u, rfl⟩ := hl l List.mem_cons_self
      obtain ⟨v, rfl⟩ := hm m List.mem_cons_self
      have huv : u.count c = v.count c := by simpa using hlm
      simp only [List.flatten_cons, List.append_assoc, List.singleton_append] at h
      obtain ⟨rfl, hr⟩ := Text.append_cons_inj_of_count huv h
      obtain ⟨rfl, hst⟩ := ih (fun x hx => hl x (List.mem_cons_of_mem _ hx))
        (fun x hx => hm x (List.mem_cons_of_mem _ hx)) hrest hr
      exact ⟨rfl, hst⟩

end Choropleth
