import Choropleth.Proofs.Condition.Denotes
import Choropleth.Proofs.Request.Accepted

/-!
# The rows of a request

The query text that a request for a table is turned into selects the rows that the request asks
for, if the request has no zone or a box. The text for its denominators selects the rows of one
category in the same areas.

* `TableRequest.AsksForArea`, `TableRequest.AsksFor`: what a request asks for;
* `TableRequest.denotes_condition`, `TableRequest.denotes_denominator`: its conditions;
* `condition_denotes_request`: its query texts, and boxes as sets of points.
-/

namespace Choropleth
namespace TableRequest

/-- The request asks for the area of a row in the release of the row. -/
structure AsksForArea (r : TableRequest) (row : FactRow) : Prop where
  release : r.release.Has row
  areas : r.areas.Allows [] row.area
  areaTypes : r.areaTypes = [] ∨ ∃ t ∈ r.areaTypes, row.areaType = t.name
  zone : ∀ b, r.zone = some (.box b) → row.LiesIn b

/-- The request asks for a row. -/
def AsksFor (r : TableRequest) (row : FactRow) : Prop :=
  r.AsksForArea row ∧ r.categories.Allows r.tables row.category

variable {r : TableRequest}

theorem denotes_areaCondition (h : ∀ z ∈ r.zone, ∃ b, z = .box b) :
    r.areaCondition.Denotes r.AsksForArea := by
  have htypes := ((Condition.denotes_forRelease r.release).onAxis (c := .areaCode)
    FactRow.area (fun _ => rfl) r.areas []).onAreaTypes r.areaTypes
  cases hz : r.zone with
  | none =>
    have hcondition : r.areaCondition =
        ((Condition.forRelease r.release).onAreas r.areas).onAreaTypes r.areaTypes := by
      rw [areaCondition, hz]
      rfl
    rw [hcondition]
    refine htypes.congr fun row => ?_
    constructor
    · rintro ⟨⟨hrelease, hareas⟩, htypes⟩
      exact ⟨hrelease, hareas, htypes, by simp [hz]⟩
    · rintro ⟨hrelease, hareas, htypes, -⟩
      exact ⟨⟨hrelease, hareas⟩, htypes⟩
  | some z =>
    obtain ⟨b, rfl⟩ := h z hz
    have hbox := htypes.onBox b
    have hcondition : r.areaCondition =
        (((Condition.forRelease r.release).onAreas r.areas).onAreaTypes r.areaTypes).onZone
          (some (.box b)) := by
      rw [areaCondition, hz]
    rw [hcondition]
    refine hbox.congr fun row => ?_
    constructor
    · rintro ⟨⟨⟨hrelease, hareas⟩, htypes⟩, hlies⟩
      refine ⟨hrelease, hareas, htypes, fun b' hb' => ?_⟩
      rw [hz] at hb'
      cases hb'
      exact hlies
    · rintro ⟨hrelease, hareas, htypes, hlies⟩
      exact ⟨⟨⟨hrelease, hareas⟩, htypes⟩, hlies b hz⟩

theorem denotes_condition (h : ∀ z ∈ r.zone, ∃ b, z = .box b) : r.condition.Denotes r.AsksFor :=
  (denotes_areaCondition h).onAxis FactRow.category (fun _ => rfl) r.categories r.tables

/-- The denominators of a request are the rows of one category in the areas it asks for. -/
theorem denotes_denominator (h : ∀ z ∈ r.zone, ∃ b, z = .box b) {c : String} {q : Condition}
    (hc : r.divideBy = some c) (hq : r.denominatorCondition? = some q) :
    q.Denotes fun row => r.AsksForArea row ∧ row.category = c := by
  rw [denominatorCondition?, hc] at hq
  obtain rfl := Option.some.inj hq
  have haxis := (denotes_areaCondition h).onAxis (c := .categoryCode) FactRow.category
    (fun _ => rfl) (.ofCodes [c]) []
  refine haxis.congr fun row => ?_
  simp [Selection.Allows, Selection.ofCodes, Selection.isEmpty]

theorem Accepted.isOrdered (h : r.Accepted) {b : Box} (hb : r.zone = some (.box b)) :
    b.IsOrdered := by
  obtain ⟨release, params, h⟩ := h
  obtain ⟨-, -, -, -, hzone, -⟩ := ofParams_eq_ok.1 h
  rw [hb, zoneOfParams] at hzone
  split at hzone
  · next z hz =>
    obtain rfl := Except.ok.inj hzone
    exact isOrdered_of_parseZone hz
  · cases hzone

end TableRequest

/-- An area whose envelope is ordered lies in an ordered box if both have a common point. -/
theorem FactRow.liesIn_iff {row : FactRow} {b e : Box} (hb : b.IsOrdered) (he : e.IsOrdered)
    (henvelope : row.envelope? = some e) :
    row.LiesIn b ↔ row.valid = true ∧ ∃ p, b.Contains p ∧ e.Contains p := by
  rw [LiesIn, henvelope, ← Box.meets_iff hb he]
  simp

/-- **The query texts of a request select what the request asks for.** Without a zone or with a
box, its text, with the values bound to the places, is true of a row just if the request asks for
the row; and the text for its denominators is true of the rows of the category to divide by in the
same areas. The boxes of accepted requests are ordered, and an ordered envelope lies in an ordered
box just if the two share a point. -/
theorem condition_denotes_request {r : TableRequest} (h : ∀ z ∈ r.zone, ∃ b, z = .box b) :
    (∀ row, Sql.Accepts r.condition.sql r.condition.values row ↔ r.AsksFor row) ∧
      (r.denominatorCondition? = none ↔ r.divideBy = none) ∧
        (∀ c q, r.divideBy = some c → r.denominatorCondition? = some q → ∀ row,
          Sql.Accepts q.sql q.values row ↔ r.AsksForArea row ∧ row.category = c) ∧
          (r.Accepted → ∀ b, r.zone = some (.box b) → b.IsOrdered) ∧
            ∀ (row : FactRow) (b e : Box), b.IsOrdered → e.IsOrdered → row.envelope? = some e →
              (row.LiesIn b ↔ row.valid = true ∧ ∃ p, b.Contains p ∧ e.Contains p) := by
  refine ⟨(TableRequest.denotes_condition h).sql_accepts_iff, ?_, ?_, ?_, ?_⟩
  · rw [TableRequest.denominatorCondition?, Option.map_eq_none_iff]
  · intro c q hc hq
    exact (TableRequest.denotes_denominator h hc hq).sql_accepts_iff
  · exact fun ha b hb => ha.isOrdered hb
  · exact fun row b e hb he henvelope => FactRow.liesIn_iff hb he henvelope

/-- A request with a box, two areas, a range of categories and a table. -/
theorem condition_denotes_request_of_box :
    let r : TableRequest :=
      { release := {}, areas := .ofCodes ["E01", "E02"], categories := ⟨[], [⟨"QS1", "QS2"⟩]⟩,
        tables := ["QS101EW"], areaTypes := [.district], zone := some (.box ⟨-1, 50, 1, 52⟩),
        divideBy := some "QS0" }
    (∀ z ∈ r.zone, ∃ b, z = .box b) ∧
      ∀ row, Sql.Accepts r.condition.sql r.condition.values row ↔ r.AsksFor row := by
  intro r
  have hzone : ∀ z ∈ r.zone, ∃ b, z = .box b := by
    rintro z ⟨⟩
    exact ⟨_, rfl⟩
  exact ⟨hzone, (condition_denotes_request hzone).1⟩

end Choropleth
