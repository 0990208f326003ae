import Mathlib
import Choropleth.Proofs.Geometry.Envelopes
import Choropleth.Proofs.Geometry.Grammar
import Choropleth.Proofs.Geometry.WellKnownText
import Choropleth.Request.Table

/-!
# Zones in requests and in their conditions

The zone of an accepted request is what its parameters describe, in normal form. Nothing checks it
again: its numbers and its ring go into the values of the conditions.

* `Condition.HasFiniteReals`: all numbers among the values of a condition are finite;
* `Condition.HasFiniteReals.onZone`: finite zones keep it so;
* `zones_are_normal`: zones from their texts to the values of conditions.
-/

namespace Choropleth

namespace Condition

/-! ### Finite values -/

/-- All numbers among the values are finite. -/
def HasFiniteReals (q : Condition) : Prop := ∀ x, Datum.real x ∈ q.values → x.isFinite = true

variable {q : Condition}

theorem HasFiniteReals.add (h : q.HasFiniteReals) (c : Clause) {vs : List Datum}
    (hvs : ∀ x, Datum.real x ∈ vs → x.isFinite = true) : (q.add c vs).HasFiniteReals :=
  fun x hx => (List.mem_append.1 hx).elim (h x) (hvs x)

theorem hasFiniteReals_forRelease (v : Release) : (forRelease v).HasFiniteReals := by
  simp [HasFiniteReals, forRelease]

theorem HasFiniteReals.onAxis (h : q.HasFiniteReals) (c : Column) (s : Selection)
    (beginnings : List String) : (q.onAxis c s beginnings).HasFiniteReals := by
  unfold Condition.onAxis
  split
  · exact h
  · exact h.add _ (by simp [axisValues])

theorem HasFiniteReals.onAreaTypes (h : q.HasFiniteReals) (types : List AreaType) :
    (q.onAreaTypes types).HasFiniteReals := by
  unfold Condition.onAreaTypes
  split
  · exact h
  · exact h.add _ (by simp)

theorem HasFiniteReals.onEnvelope (h : q.HasFiniteReals) {b : Option Box}
    (hb : ∀ e ∈ b, e.IsFinite) : (q.onEnvelope b).HasFiniteReals := by
  cases b with
  | none => exact h
  | some b =>
    obtain ⟨hwest, hsouth, heast, hnorth⟩ := hb b rfl
    refine h.add _ fun x hx => ?_
    simp only [envelopeValues, List.mem_cons, Datum.real.injEq, List.not_mem_nil, or_false] at hx
    rcases hx with rfl | rfl | rfl | rfl <;> assumption

theorem HasFiniteReals.onRing (h : q.HasFiniteReals) (t : Option String) :
    (q.onRing t).HasFiniteReals := by
  cases t with
  | none => exact h
  | some t => exact h.add _ (by simp)

theorem isFinite_of_envelope? {z : Zone} (hz : z.IsFinite) : ∀ e ∈ z.envelope?, e.IsFinite := by
  intro e he
  cases z with
  | box b => exact Option.some.inj he ▸ hz
  | disc c m => cases he
  | ring ps =>
    have hne : ps ≠ [] := by
      rintro rfl
      cases he
    obtain ⟨b, hb, henv⟩ := Zone.exists_envelope?_ring hne hz
    obtain rfl := Option.some.inj (hb.symm.trans he)
    exact henv.isFinite hz

theorem HasFiniteReals.onZone (h : q.HasFiniteReals) {z : Option Zone}
    (hz : ∀ w ∈ z, w.IsFinite) : (q.onZone z).HasFiniteReals := by
  cases z with
  | none => exact h
  | some z =>
    have hvalid : (q.add (.one (.holds .areaValid)) []).HasFiniteReals := h.add _ nofun
    have hfin := hz z rfl
    have henv := isFinite_of_envelope? hfin
    cases z with
    | box b => exact hvalid.onEnvelope henv
    | disc c m =>
      refine hvalid.add _ fun x hx => ?_
      simp only [List.mem_cons, Datum.real.injEq, List.not_mem_nil, or_false] at hx
      rcases hx with rfl | rfl | rfl | rfl
      · exact hfin.1.2
      · exact hfin.1.2
      · exact hfin.1.1
      · exact hfin.2
    | ring ps => exact (hvalid.onEnvelope henv).onRing _

end Condition

namespace TableRequest

variable {r : TableRequest}

theorem hasFiniteReals_areaCondition (h : ∀ z ∈ r.zone, z.IsFinite) :
    r.areaCondition.HasFiniteReals :=
  (((Condition.hasFiniteReals_forRelease r.release).onAxis _ r.areas []).onAreaTypes
    r.areaTypes).onZone h

/-- Finite zones give finite numbers to both conditions of a request. -/
theorem hasFiniteReals (h : ∀ z ∈ r.zone, z.IsFinite) {q : Condition}
    (hq : q = r.condition ∨ r.denominatorCondition? = some q) : q.HasFiniteReals := by
  have harea := hasFiniteReals_areaCondition h
  rcases hq with rfl | hq
  · exact harea.onAxis _ _ _
  · obtain ⟨c, -, rfl⟩ := Option.map_eq_some_iff.1 hq
    exact harea.onAxis _ _ _

end TableRequest

/-! ### From texts to values -/

theorem parseZone_box {raw : String} {b : Box} :
    parseZone { box := some raw } = .ok (some (.box b)) ↔ parseBox raw = .ok b := by
  show (parseBox raw).map (fun b => some (Zone.box b)) = .ok (some (.box b)) ↔ _
  simp

/-- **Zones are normal.** Parameters of which none is given have no zone, and all others that are
accepted describe the zone: one kind is given, its numbers stand in the text in this order, a box
has its sides in order, a radius is positive, a ring is closed and encloses an area, and everything
is finite and in range. A box can be written from any of its corners. So the numbers among the
values of the conditions are finite, and the text of a ring has its points in order. -/
theorem zones_are_normal (p : ZoneParams) :
    (parseZone p = .ok none ↔
      p.box = none ∧ p.centre = none ∧ p.radius = none ∧ p.ring = none) ∧
    (∀ z, parseZone p = .ok (some z) ↔ p.Describes z) ∧
    (∀ z, parseZone p = .ok (some z) → z.IsNormal) ∧
    (∀ (a b c d : String) (e : Box),
      parseZone { box := some (commaJoined a b c d) } = .ok (some (.box e)) →
        ∀ raw ∈ [commaJoined c d a b, commaJoined a d c b, commaJoined c b a d],
          ∃ f, parseZone { box := some raw } = .ok (some (.box f)) ∧ f.Same e) ∧
    (∀ r : TableRequest, parseZone p = .ok r.zone →
      ∀ q, q = r.condition ∨ r.denominatorCondition? = some q →
        ∀ x, Datum.real x ∈ q.values → x.isFinite = true) ∧
    ∀ ps, parseZone p = .ok (some (.ring ps)) →
      ∃ text, (Zone.ring ps).wellKnownText? = some text ∧
        ∀ qs, IsPolygonText text qs ↔ qs = ps := by
  refine ⟨?_, fun z => ?_, fun z => isNormal_of_parseZone, ?_, ?_, ?_⟩
  · obtain ⟨box, centre, radius, ring⟩ := p
    simp [parseZone_eq_ok]
  · simp [parseZone_eq_ok]
  · intro a b c d e h
    obtain ⟨hopposite, hother, hlast⟩ := parseBox_four_ways (parseZone_box.1 h)
    simpa [parseZone_box] using ⟨hopposite, hother, hlast⟩
  · intro r h q hq
    exact TableRequest.hasFiniteReals (isFinite_of_parseZone h) hq
  · intro ps h
    have hring := isNormal_of_parseZone h
    have hne : ps ≠ [] := by
      rintro rfl
      exact absurd hring.2.length (by decide)
    have htext := isPolygonText_wellKnownText hne (fun p hp => (hring.1 p hp).isFinite) rfl
    exact ⟨_, rfl, fun qs => ⟨fun hqs => hqs.eq htext, fun hqs => hqs ▸ htext⟩⟩

/-- A triangle, written with blanks, a sign and an exponent. -/
theorem zones_are_normal_of_triangle :
    let p : ZoneParams := { ring := some "0,0, 4,+0,0,30e-1,0,0" }
    let z : Zone := .ring [⟨0, 0⟩, ⟨4, 0⟩, ⟨0, 3⟩, ⟨0, 0⟩]
    parseZone p = .ok (some z) ∧ p.Describes z ∧ z.IsNormal := by
  intro p z
  have hz : parseZone p = .ok (some z) := by decide +kernel
  obtain ⟨-, hdescribes, hnormal, -⟩ := zones_are_normal p
  exact ⟨hz, (hdescribes z).1 hz, hnormal z hz⟩

end Choropleth
