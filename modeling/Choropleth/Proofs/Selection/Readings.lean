import Choropleth.Proofs.Selection.Parsing

/-!
# Readings by their tokens

Whether the values of a parameter are read, and which codes, ranges or area types are read from
them, depends on the set of their tokens only.

* `Selection.okIff_parse`: values that may have ranges;
* `okIff_parseCodes`: values that may not;
* `okIff_parseAreaTypes`: values that name area types.
-/

namespace Choropleth

variable (values : List String)

/-! ### Codes and ranges -/

namespace Selection

theorem okIff_parse :
    Outcome.OkIff (∀ t ∈ tokens (values.map String.toList), Token.Fits t)
      (fun s => s.Lists (tokens (values.map String.toList))) (parse values) := by
  rcases parse_cases values with hok | ⟨before, t, after, hts, -, ht, he⟩
  · exact .inl hok
  · exact .inr ⟨fun hall => ht (hall t (by simp [hts])), _, he⟩

theorem Lists.ranges_eq_nil_iff {s : Selection} {ts : List (List Char)} (h : s.Lists ts) :
    s.ranges = [] ↔ ∀ t ∈ ts, ¬Text.HasEllipsis t := by
  rw [← List.length_eq_zero_iff, ← h.ranges.length_eq, List.length_eq_zero_iff,
    List.filter_eq_nil_iff]
  simp

/-- A selection has codes only if no token has a mark in it. -/
theorem Lists.okIff_codesOnly {s : Selection} {ts : List (List Char)} (h : s.Lists ts)
    (param : String) : Outcome.OkIff (∀ t ∈ ts, ¬Text.HasEllipsis t)
      (fun cs => ∀ c, c ∈ cs ↔ c ∈ ts.map String.ofList) (codesOnly s param) := by
  by_cases hranges : s.ranges = []
  · have hm := h.ranges_eq_nil_iff.1 hranges
    refine .inl ⟨hm, s.codes, by simp [codesOnly, hasRanges, hranges], fun c => ?_⟩
    have hc : c ∈ ts.map String.ofList ↔ c.toList ∈ ts := by
      rw [← List.mem_map_of_injective (f := String.ofList) fun _ _ => String.ofList_injective,
        String.ofList_toList]
    rw [hc, h.mem_codes, and_iff_left_iff_imp]
    exact hm c.toList
  · exact .inr ⟨mt h.ranges_eq_nil_iff.2 hranges, .unsupportedRange param,
      by simp [codesOnly, hasRanges, hranges]⟩

end Selection

theorem okIff_parseCodes (param : String) :
    Outcome.OkIff (∀ t ∈ tokens (values.map String.toList), ¬Text.HasEllipsis t)
      (fun cs => ∀ c, c ∈ cs ↔ c ∈ (tokens (values.map String.toList)).map String.ofList)
      (parseCodes values param) := by
  rw [parseCodes]
  rcases Selection.okIff_parse values with ⟨-, s, hs, hlists⟩ | ⟨hnot, e, he⟩
  · rw [hs]
    exact hlists.okIff_codesOnly param
  · rw [he]
    exact .inr ⟨fun hm => hnot fun t ht hmark => absurd hmark (hm t ht), e, rfl⟩

/-! ### Area types -/

theorem okIff_areaTypesOfNames (names : List String) :
    Outcome.OkIff (∀ n ∈ names, (AreaType.parse? n).isSome = true)
      (fun types => ∀ u, u ∈ types ↔ ∃ n ∈ names, AreaType.parse? n = some u)
      (areaTypesOfNames names) := by
  induction names with
  | nil => exact .inl ⟨by simp, [], rfl, by simp⟩
  | cons n names ih =>
    rw [areaTypesOfNames]
    cases hn : AreaType.parse? n with
    | none => exact .inr ⟨fun hall => by simpa [hn] using hall n List.mem_cons_self, _, rfl⟩
    | some t =>
      rcases ih with ⟨hall, types, htypes, hmem⟩ | ⟨hnot, e, he⟩
      · refine .inl ⟨?_, t :: types, by rw [htypes]; rfl, fun u => ?_⟩
        · rw [List.forall_mem_cons]
          exact ⟨by rw [hn]; rfl, hall⟩
        · simp [hmem, hn, eq_comm]
      · exact .inr ⟨fun hall => hnot (List.forall_mem_cons.1 hall).2, e, by rw [he]; rfl⟩

namespace AreaType

theorem parse?_ofList (t : List Char) :
    parse? (String.ofList t) = ofName? (String.ofList (t.map Char.toUpper)) := by
  rw [parse?, String.toList_ofList]

/-- A name with the mark of ranges in it is not that of an area type. -/
theorem not_isSome_parse?_of_hasEllipsis {t : List Char} (h : Text.HasEllipsis t) :
    ¬(parse? (String.ofList t)).isSome = true := by
  intro hsome
  obtain ⟨u, hu⟩ := Option.isSome_iff_exists.1 hsome
  have hname := List.find?_some hu
  rw [decide_eq_true_eq, String.toList_ofList] at hname
  have hmark : Text.HasEllipsis u.name.toList := by
    rw [hname, String.toList_ofList]
    exact List.IsInfix.map Char.toUpper h
  cases u <;> exact absurd hmark (by decide)

end AreaType

theorem okIff_parseAreaTypes :
    Outcome.OkIff
      (∀ n ∈ (tokens (values.map String.toList)).map (List.map Char.toUpper),
        (AreaType.ofName? (String.ofList n)).isSome = true)
      (fun types => ∀ u, u ∈ types ↔
        ∃ n ∈ (tokens (values.map String.toList)).map (List.map Char.toUpper),
          AreaType.ofName? (String.ofList n) = some u)
      (parseAreaTypes values) := by
  rw [List.forall_mem_map]
  simp only [List.mem_map, exists_exists_and_eq_and, ← AreaType.parse?_ofList]
  rw [parseAreaTypes]
  rcases okIff_parseCodes values "geotype" with ⟨-, cs, hcs, hmem⟩ | ⟨hmark, e, he⟩
  · rw [hcs]
    refine (okIff_areaTypesOfNames cs).congr ?_ fun types htypes u => ?_
    · simp only [hmem, List.forall_mem_map]
    · simp only [htypes, hmem, List.mem_map, exists_exists_and_eq_and]
  · rw [he]
    refine .inr ⟨fun hall => hmark fun t ht hm => ?_, e, rfl⟩
    exact AreaType.not_isSome_parse?_of_hasEllipsis hm (hall t ht)

end Choropleth
