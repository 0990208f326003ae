import Mathlib
import Choropleth.Proofs.Condition.Denotes
import Choropleth.Proofs.Geometry.Boxes
import Choropleth.Proofs.Geometry.ZoneText
import Choropleth.Proofs.Number.Values
import Choropleth.Store.Scan

/-!
# The envelopes of rings

Before boundaries are compared with a ring, areas are left out whose envelope does not meet that of
the ring. No area is lost by this: what lies in the convex hull of the points lies in the envelope.

* `Position.point`, `Box.region`: positions and boxes in the plane of rationals;
* `Box.IsEnvelope`: the sides of a box are least and greatest coordinates;
* `Zone.exists_envelope?_ring`: the envelope that is computed has this property;
* `Box.IsEnvelope.isLeast_region`, `Box.IsEnvelope.hull_subset_region`: the least box, and the
  convex hull in it;
* `envelope_keeps_matches`: the clause for the envelope next to the exact test;
* `Condition.accepts_onRing_iff`, `Condition.select_onRing`: what a ring selects in a store.
-/

namespace Choropleth

open Number (value extent)

/-! ### Numbers of a list -/

namespace Number

/-- A number of the list whose value is least. -/
def IsLeastOf (x : Float) (xs : List Float) : Prop := x ∈ xs ∧ ∀ y ∈ xs, value x ≤ value y

/-- A number of the list whose value is greatest. -/
def IsGreatestOf (x : Float) (xs : List Float) : Prop := x ∈ xs ∧ ∀ y ∈ xs, value y ≤ value x

/-- A running choice of what comes first in an order ends with a number that comes before all. -/
theorem foldl_choice {f : Float → Float → Float} {R : ℚ → ℚ → Prop} [IsPreorder ℚ R]
    (hf : ∀ x y : Float, x.isFinite = true → y.isFinite = true → (f x y = x ∨ f x y = y) ∧
      R (value (f x y)) (value x) ∧ R (value (f x y)) (value y))
    {x : Float} (hx : x.isFinite = true) {ys : List Float} (hys : ∀ y ∈ ys, y.isFinite = true) :
    ys.foldl f x ∈ x :: ys ∧ ∀ y ∈ x :: ys, R (value (ys.foldl f x)) (value y) := by
  induction ys generalizing x with
  | nil => simpa using refl_of R (value x)
  | cons y ys ih =>
    have hy := hys y List.mem_cons_self
    obtain ⟨hchoice, hRx, hRy⟩ := hf x y hx hy
    have hz : (f x y).isFinite = true := by rcases hchoice with h | h <;> rw [h] <;> assumption
    obtain ⟨hmem, hall⟩ := ih hz fun z hz => hys z (List.mem_cons_of_mem y hz)
    rw [List.foldl_cons]
    rw [List.forall_mem_cons] at hall
    refine ⟨?_, ?_⟩
    · rcases List.mem_cons.1 hmem with h | h
      · rw [h]
        rcases hchoice with h | h <;> simp [h]
      · simp [h]
    · simp only [List.forall_mem_cons]
      exact ⟨trans_of R hall.1 hRx, trans_of R hall.1 hRy, hall.2⟩

theorem isLeastOf_foldl_lesser {x : Float} (hx : x.isFinite = true) {ys : List Float}
    (hys : ∀ y ∈ ys, y.isFinite = true) : IsLeastOf (ys.foldl lesser x) (x :: ys) :=
  foldl_choice (R := (· ≤ ·)) (fun x y hx hy => by
    rw [value_lesser hx hy]
    exact ⟨lesser_eq_or x y, min_le_left _ _, min_le_right _ _⟩) hx hys

theorem isGreatestOf_foldl_greater {x : Float} (hx : x.isFinite = true) {ys : List Float}
    (hys : ∀ y ∈ ys, y.isFinite = true) : IsGreatestOf (ys.foldl greater x) (x :: ys) :=
  foldl_choice (R := (· ≥ ·)) (fun x y hx hy => by
    rw [value_greater hx hy]
    exact ⟨greater_eq_or x y, le_max_left _ _, le_max_right _ _⟩) hx hys

end Number

/-! ### The plane -/

/-- A position as a point of the plane. -/
def Position.point (p : Position) : ℚ × ℚ := (value p.lon, value p.lat)

/-- The points of the plane that lie in a box, its sides included. -/
def Box.region (b : Box) : Set (ℚ × ℚ) :=
  {q | (extent b.west ≤ ↑(↑q.1 : WithTop ℚ) ∧ ↑(↑q.1 : WithTop ℚ) ≤ extent b.east) ∧
    extent b.south ≤ ↑(↑q.2 : WithTop ℚ) ∧ ↑(↑q.2 : WithTop ℚ) ≤ extent b.north}

/-- The convex combinations of positions. -/
def hull (ps : List Position) : Set (ℚ × ℚ) := convexHull ℚ {q | ∃ p ∈ ps, p.point = q}

namespace Box

theorem region_of_isFinite {b : Box} (h : b.IsFinite) :
    b.region = Set.Icc (value b.west, value b.south) (value b.east, value b.north) := by
  obtain ⟨hwest, hsouth, heast, hnorth⟩ := h
  ext q
  simp only [region, Number.extent_of_isFinite hwest, Number.extent_of_isFinite hsouth,
    Number.extent_of_isFinite heast, Number.extent_of_isFinite hnorth, WithBot.coe_le_coe,
    WithTop.coe_le_coe, Set.mem_ofPred_eq, Set.mem_Icc, Prod.le_def]
  tauto

/-- Boxes with a common point meet. -/
theorem meets_of_mem_region {b e : Box} (hb : b.IsFinite) {q : ℚ × ℚ} (hqb : q ∈ b.region)
    (hqe : q ∈ e.region) : b.Meets e := by
  obtain ⟨hwest, hsouth, heast, hnorth⟩ := hb
  obtain ⟨⟨hbw, hbe⟩, hbs, hbn⟩ := hqb
  obtain ⟨⟨hew, hee⟩, hes, hen⟩ := hqe
  exact ⟨⟨(Number.realLe_iff_extent (.inl hwest)).2 (hbw.trans hee),
    (Number.realLe_iff_extent (.inr heast)).2 (hew.trans hbe)⟩,
    (Number.realLe_iff_extent (.inl hsouth)).2 (hbs.trans hen),
    (Number.realLe_iff_extent (.inr hnorth)).2 (hes.trans hbn)⟩

/-! ### Envelopes -/

/-- The sides of the box are the least and the greatest coordinates of the positions. -/
structure IsEnvelope (b : Box) (ps : List Position) : Prop where
  west : Number.IsLeastOf b.west (ps.map Position.lon)
  south : Number.IsLeastOf b.south (ps.map Position.lat)
  east : Number.IsGreatestOf b.east (ps.map Position.lon)
  north : Number.IsGreatestOf b.north (ps.map Position.lat)

/-- The sides of a box are extended one by one. -/
theorem foldl_extend (b : Box) (ps : List Position) : ps.foldl extend b =
    ⟨(ps.map Position.lon).foldl Number.lesser b.west,
      (ps.map Position.lat).foldl Number.lesser b.south,
      (ps.map Position.lon).foldl Number.greater b.east,
      (ps.map Position.lat).foldl Number.greater b.north⟩ := by
  induction ps generalizing b with
  | nil => rfl
  | cons p ps ih => exact ih (b.extend p)

variable {b : Box} {ps : List Position}

theorem isEnvelope_foldl_extend {p : Position} (hp : p.IsFinite) (hps : ∀ q ∈ ps, q.IsFinite) :
    (ps.foldl extend (ofPosition p)).IsEnvelope (p :: ps) := by
  have hlon : ∀ x ∈ ps.map Position.lon, x.isFinite = true := by
    simpa using fun q hq => (hps q hq).1
  have hlat : ∀ x ∈ ps.map Position.lat, x.isFinite = true := by
    simpa using fun q hq => (hps q hq).2
  rw [foldl_extend]
  exact ⟨Number.isLeastOf_foldl_lesser hp.1 hlon, Number.isLeastOf_foldl_lesser hp.2 hlat,
    Number.isGreatestOf_foldl_greater hp.1 hlon, Number.isGreatestOf_foldl_greater hp.2 hlat⟩

theorem IsEnvelope.isFinite (h : b.IsEnvelope ps) (hps : ∀ p ∈ ps, p.IsFinite) : b.IsFinite := by
  have hlon {x : Float} (hx : x ∈ ps.map Position.lon) : x.isFinite = true := by
    obtain ⟨p, hp, rfl⟩ := List.mem_map.1 hx
    exact (hps p hp).1
  have hlat {x : Float} (hx : x ∈ ps.map Position.lat) : x.isFinite = true := by
    obtain ⟨p, hp, rfl⟩ := List.mem_map.1 hx
    exact (hps p hp).2
  exact ⟨hlon h.west.1, hlat h.south.1, hlon h.east.1, hlat h.north.1⟩

theorem IsEnvelope.point_mem_region (h : b.IsEnvelope ps) (hps : ∀ p ∈ ps, p.IsFinite)
    {p : Position} (hp : p ∈ ps) : p.point ∈ b.region := by
  have hlon := List.mem_map_of_mem (f := Position.lon) hp
  have hlat := List.mem_map_of_mem (f := Position.lat) hp
  rw [region_of_isFinite (h.isFinite hps)]
  exact ⟨⟨h.west.2 _ hlon, h.south.2 _ hlat⟩, h.east.2 _ hlon, h.north.2 _ hlat⟩

/-- The envelope is the least closed box around the positions. -/
theorem IsEnvelope.isLeast_region (h : b.IsEnvelope ps) (hps : ∀ p ∈ ps, p.IsFinite) :
    IsLeast {r : Set (ℚ × ℚ) | (∃ c d, r = Set.Icc c d) ∧ ∀ p ∈ ps, p.point ∈ r} b.region := by
  have hregion := region_of_isFinite (h.isFinite hps)
  refine ⟨⟨⟨_, _, hregion⟩, fun p hp => h.point_mem_region hps hp⟩, ?_⟩
  rintro _ ⟨⟨c, d, rfl⟩, hr⟩
  -- every side is the coordinate of a position, and that lies between the sides of the other box
  obtain ⟨w, hw, hwest⟩ := List.mem_map.1 h.west.1
  obtain ⟨s, hs, hsouth⟩ := List.mem_map.1 h.south.1
  obtain ⟨e, he, heast⟩ := List.mem_map.1 h.east.1
  obtain ⟨n, hn, hnorth⟩ := List.mem_map.1 h.north.1
  rw [hregion, ← hwest, ← hsouth, ← heast, ← hnorth]
  exact Set.Icc_subset_Icc ⟨(hr w hw).1.1, (hr s hs).1.2⟩ ⟨(hr e he).2.1, (hr n hn).2.2⟩

/-- A box is convex. -/
theorem IsEnvelope.hull_subset_region (h : b.IsEnvelope ps) (hps : ∀ p ∈ ps, p.IsFinite) :
    hull ps ⊆ b.region := by
  refine convexHull_min ?_ ?_
  · rintro _ ⟨p, hp, rfl⟩
    exact h.point_mem_region hps hp
  · rw [region_of_isFinite (h.isFinite hps)]
    exact convex_Icc _ _

end Box

theorem Zone.exists_envelope?_ring {ps : List Position} (hne : ps ≠ [])
    (hps : ∀ p ∈ ps, p.IsFinite) :
    ∃ b, (Zone.ring ps).envelope? = some b ∧ b.IsEnvelope ps := by
  obtain ⟨p, r, rfl⟩ := List.exists_cons_of_ne_nil hne
  have h := Box.isEnvelope_foldl_extend (hps p List.mem_cons_self) hps
  refine ⟨_, rfl, ?_⟩
  -- the fold meets the first point twice
  constructor
  · simpa [Number.IsLeastOf] using h.west
  · simpa [Number.IsLeastOf] using h.south
  · simpa [Number.IsGreatestOf] using h.east
  · simpa [Number.IsGreatestOf] using h.north

/-! ### The clause for the envelope -/

namespace Condition

/-- The clause as a query text is true of the areas whose envelope meets the box. -/
theorem sql_accepts_envelopeMeets_iff (row : FactRow) (b : Box) :
    Sql.Accepts envelopeMeets.sql (envelopeValues b) row ↔
      ∃ e, row.envelope? = some e ∧ b.Meets e := by
  have h := sql_accepts_iff (q := ⟨[envelopeMeets], envelopeValues b, false⟩)
    ⟨List.cons_ne_nil _ _, by simpa using isPlain_envelopeMeets⟩ rfl row
  have htruth : Condition.truth ⟨[envelopeMeets], envelopeValues b, false⟩ row =
      Truth.all [envelopeMeets.truth row (envelopeValues b)] := rfl
  rw [← envelopeMeets_truth_iff, ← List.forall_mem_singleton (p := (· = some true)),
    ← Truth.all_eq_true, ← htruth, ← accepts_iff]
  exact h

/-- **The clause for the envelope of a ring loses no area.** The envelope is the least closed box
around the points of the ring, each side touched by one of them, and their convex combinations lie
in it. So the clause that goes in front of the exact test is true of every area whose stored box has
a point in common with the convex hull of the ring, and the two together are true of the same areas
as the exact test alone, where the stored box encloses the area and the hull encloses the inside of
the ring. -/
theorem envelope_keeps_matches {ps : List Position} (hne : ps ≠ []) (hps : ∀ p ∈ ps, p.IsFinite) :
    ∃ b, (Zone.ring ps).envelope? = some b ∧ b.IsFinite ∧
      IsLeast {r : Set (ℚ × ℚ) | (∃ c d, r = Set.Icc c d) ∧ ∀ p ∈ ps, p.point ∈ r} b.region ∧
      ((∃ p ∈ ps, p.lon = b.west) ∧ (∃ p ∈ ps, p.lat = b.south) ∧ (∃ p ∈ ps, p.lon = b.east) ∧
        ∃ p ∈ ps, p.lat = b.north) ∧
      hull ps ⊆ b.region ∧
      (∀ q : Condition, ∃ t, (Zone.ring ps).wellKnownText? = some t ∧
        q.onZone (some (.ring ps)) =
          { clauses := q.clauses ++ [.one (.holds .areaValid), envelopeMeets, .one .meetsRing]
            values := q.values ++ [.real b.west, .real b.east, .real b.south, .real b.north, .text t]
            needsBoundaries := true }) ∧
      ∀ row e, row.envelope? = some e →
        ((hull ps ∩ e.region).Nonempty →
          Sql.Accepts envelopeMeets.sql [.real b.west, .real b.east, .real b.south, .real b.north]
            row) ∧
        ∀ geometry inside : Set (ℚ × ℚ), geometry ⊆ e.region → inside ⊆ hull ps →
          ∀ exact : Truth, (exact = some true ↔ (geometry ∩ inside).Nonempty) →
            (Truth.both (envelopeMeets.truth row
              [.real b.west, .real b.east, .real b.south, .real b.north]) exact = some true ↔
                exact = some true) := by
  obtain ⟨b, hb, henv⟩ := Zone.exists_envelope?_ring hne hps
  have hhull := henv.hull_subset_region hps
  -- the envelopes meet wherever the hull and the stored box have a common point
  have hmeets (e : Box) (hq : (hull ps ∩ e.region).Nonempty) : b.Meets e := by
    obtain ⟨q, hqh, hqe⟩ := hq
    exact Box.meets_of_mem_region (henv.isFinite hps) (hhull hqh) hqe
  refine ⟨b, hb, henv.isFinite hps, henv.isLeast_region hps,
    ⟨List.mem_map.1 henv.west.1, List.mem_map.1 henv.south.1, List.mem_map.1 henv.east.1,
      List.mem_map.1 henv.north.1⟩, hhull, fun q => ⟨_, rfl, ?_⟩, fun row e he => ⟨fun hq => ?_, ?_⟩⟩
  · simp [onZone, onEnvelope, onRing, add, hb, envelopeValues, Zone.wellKnownText?]
  · exact (sql_accepts_envelopeMeets_iff row b).2 ⟨e, he, hmeets e hq⟩
  · intro geometry inside hgeometry hinside exact hexact
    rw [Truth.both_eq_true]
    refine and_iff_right_of_imp fun h => (envelopeMeets_truth_iff row b).2 ⟨e, he, hmeets e ?_⟩
    obtain ⟨q, hqg, hqi⟩ := hexact.1 h
    exact ⟨q, hinside hqi, hgeometry hqg⟩

/-- A row of an area whose stored box is `⟨1, -1, 3, 1⟩`. -/
def boxedRow : FactRow where
  area := "E06"
  areaType := "LAD"
  valid := true
  minLon := some 1
  minLat := some (-1)
  maxLon := some 3
  maxLat := some 1
  centroidLon := none
  centroidLat := none
  category := "QS1EW0001"
  categoryYear := 2011
  releaseYear := 2011
  releaseLabel := "2.2"
  value := 5

/-- The convex hull of a triangle lies in its envelope, and a box that has a point in common with one
of its sides, though it holds none of its corners, is kept by the clause. -/
theorem envelope_keeps_matches_of_triangle :
    let ps : List Position := [⟨0, 0⟩, ⟨4, 0⟩, ⟨0, 3⟩, ⟨0, 0⟩]
    ps ≠ [] ∧ (∀ p ∈ ps, p.IsFinite) ∧ (Zone.ring ps).envelope? = some ⟨0, 0, 4, 3⟩ ∧
      hull ps ⊆ (⟨0, 0, 4, 3⟩ : Box).region ∧ boxedRow.envelope? = some ⟨1, -1, 3, 1⟩ ∧
      (hull ps ∩ (⟨1, -1, 3, 1⟩ : Box).region).Nonempty ∧
      Sql.Accepts envelopeMeets.sql [.real 0, .real 4, .real 0, .real 3] boxedRow := by
  intro ps
  have hne : ps ≠ [] := List.cons_ne_nil _ _
  have hps : ∀ p ∈ ps, p.IsFinite := by
    simp only [Position.IsFinite]
    decide +kernel
  have henvelope : (Zone.ring ps).envelope? = some ⟨0, 0, 4, 3⟩ := by decide +kernel
  have hrow : boxedRow.envelope? = some ⟨1, -1, 3, 1⟩ := rfl
  have hfour : value 4 = 4 := by decide +kernel
  have hzero : value 0 = 0 := by decide +kernel
  -- the middle of the side between the first two corners
  have hhull : ((2, 0) : ℚ × ℚ) ∈ hull ps := by
    have hleft : ((0, 0) : ℚ × ℚ) ∈ hull ps :=
      subset_convexHull ℚ _ ⟨⟨0, 0⟩, by simp [ps], by simp [Position.point, hzero]⟩
    have hright : ((4, 0) : ℚ × ℚ) ∈ hull ps :=
      subset_convexHull ℚ _ ⟨⟨4, 0⟩, by simp [ps], by simp [Position.point, hzero, hfour]⟩
    have hmiddle : midpoint ℚ ((0, 0) : ℚ × ℚ) (4, 0) = (2, 0) := by
      rw [midpoint_eq_smul_add]
      norm_num
    exact hmiddle ▸ (convex_convexHull ℚ _).midpoint_mem hleft hright
  have hregion : ((2, 0) : ℚ × ℚ) ∈ (⟨1, -1, 3, 1⟩ : Box).region := by
    have hfinite : (⟨1, -1, 3, 1⟩ : Box).IsFinite := by
      unfold Box.IsFinite
      decide +kernel
    rw [Box.region_of_isFinite hfinite]
    decide +kernel
  obtain ⟨b, hb, -, -, -, hsubset, -, hrows⟩ := envelope_keeps_matches hne hps
  obtain rfl := Option.some.inj (hb.symm.trans henvelope)
  have hcommon : (hull ps ∩ (⟨1, -1, 3, 1⟩ : Box).region).Nonempty := ⟨_, hhull, hregion⟩
  exact ⟨hne, hps, henvelope, hsubset, hrow, hcommon, (hrows boxedRow _ hrow).1 hcommon⟩

/-! ### Boundaries in a store -/

section

variable {q : Condition} {ps : List Position} {b : Box} {t : String} (x : BoundaryTest)

/-- A ring restricts the areas to valid ones whose envelope meets that of the ring and whose boundary
meets the ring. -/
theorem accepts_onRing_iff (hq : q.IsBound) (hb : (Zone.ring ps).envelope? = some b)
    (ht : (Zone.ring ps).wellKnownText? = some t) (row : FactRow) :
    (q.onZone (some (.ring ps))).accepts (x.see row) = true ↔
      q.accepts (x.see row) = true ∧ row.valid = true ∧
        (∃ e, row.envelope? = some e ∧ b.Meets e) ∧
        ∃ boundary ∈ row.boundary, x.meets boundary t = some true := by
  have hvalid : (Test.holds .areaValid).truth (x.see row) [] = some true ↔ row.valid = true := by
    simp [Test.truth, Column.datum, Datum.truth, BoundaryTest.see]
  have hring : Test.meetsRing.truth (x.see row) [.text t] = some true ↔
      ∃ boundary ∈ row.boundary, x.meets boundary t = some true := by
    cases h : row.boundary <;> simp [Test.truth, BoundaryTest.see, h]
  have hquery : (q.onZone (some (.ring ps))).accepts (x.see row) =
      (((q.add (.one (.holds .areaValid)) []).add envelopeMeets (envelopeValues b)).add
        (.one .meetsRing) [.text t]).accepts (x.see row) := by
    simp only [onZone, onEnvelope, onRing, hb, ht]
    rfl
  have hbound := hq.add (c := .one (.holds .areaValid)) (show [].length = _ from rfl)
  rw [hquery, accepts_add (hbound.add rfl) rfl, accepts_add hbound rfl, accepts_add hq rfl,
    Clause.truth_one _ _ rfl, Clause.truth_one _ _ rfl, hvalid, hring, envelopeMeets_truth_iff,
    and_assoc, and_assoc]
  exact Iff.rfl

/-- **The envelope of a ring loses no observation.** If boundaries meet the ring only where the stored
box has a point in common with its convex hull, what is selected are the observations of the valid
areas whose boundary meets the ring. -/
theorem select_onRing (hq : q.IsBound) (hne : ps ≠ []) (hps : ∀ p ∈ ps, p.IsFinite)
    (ht : (Zone.ring ps).wellKnownText? = some t) {s : Store}
    (hfault : x.fault? s (q.onZone (some (.ring ps))) = none)
    (hmeets : ∀ row ∈ s.rows, ∀ boundary ∈ row.boundary, x.meets boundary t = some true →
      ∃ e, row.envelope? = some e ∧ (hull ps ∩ e.region).Nonempty) :
    x.select s (q.onZone (some (.ring ps))) = .ok ((s.rows.filter fun row =>
      q.accepts (x.see row) && row.valid &&
        row.boundary.any fun boundary => x.meets boundary t = some true).map
          FactRow.toObservation) := by
  obtain ⟨b, hb, henv⟩ := Zone.exists_envelope?_ring hne hps
  have hhull := henv.hull_subset_region hps
  have hrows : s.rows.filter ((q.onZone (some (.ring ps))).accepts ∘ x.see) =
      s.rows.filter fun row => q.accepts (x.see row) && row.valid &&
        row.boundary.any fun boundary => x.meets boundary t = some true := by
    refine List.filter_congr fun row hrow => ?_
    rw [Bool.eq_iff_iff, Function.comp_apply, accepts_onRing_iff x hq hb ht]
    simp only [Bool.and_eq_true, Option.any_eq_true, decide_eq_true_eq, and_assoc]
    refine and_congr_right' (and_congr_right' (and_iff_right_of_imp ?_))
    -- the common point lies in the envelope of the ring
    rintro ⟨boundary, hboundary, hexact⟩
    obtain ⟨e, he, p, hp, hpe⟩ := hmeets row hrow boundary hboundary hexact
    exact ⟨e, he, Box.meets_of_mem_region (henv.isFinite hps) (hhull hp) hpe⟩
  rw [BoundaryTest.select, hfault, List.filter_map, hrows, List.map_map]
  rfl

end

end Condition
end Choropleth
