import Mathlib
import Choropleth.Geometry.Reading
import Choropleth.Proofs.Geometry.Boxes
import Choropleth.Proofs.Geometry.ZoneText
import Choropleth.Proofs.Number.Values
import Choropleth.Proofs.Outcome

/-!
# The zones that texts describe

A zone is described by a list of coordinates, and for a disc by a radius. What is accepted is in
range, and every reader accepts just the texts that describe something.

* `ListsNumbers`, `ListsPositions`: the numbers and the positions that a text lists;
* `parseBox_eq_ok`, `parseCentre_eq_ok`, `parseRadius_eq_ok`, `parseRing_eq_ok`: the readers;
* `ZoneParams.Describes`, `parseZone_eq_ok`: the four parameters together;
* `Zone.IsNormal`, `isNormal_of_parseZone`: the zones of requests.
-/

namespace Choropleth

open Number (value)

/-! ### Numbers -/

/-- The text stands for the finite number. -/
def Reads (s : List Char) (x : Float) : Prop :=
  x.isFinite = true ∧ Number.readFloat? (Text.trim s) = some x

/-- The numbers stand in the text in this order, with commas between them. -/
def ListsNumbers (raw : String) (xs : List Float) : Prop :=
  List.Forall₂ Reads (Text.pieces ',' raw.toList) xs

theorem ListsNumbers.isFinite {raw : String} {xs : List Float} (h : ListsNumbers raw xs) :
    ∀ x ∈ xs, x.isFinite = true := by
  intro x hx
  obtain ⟨s, -, hs⟩ := Outcome.exists_of_mem_right h hx
  exact hs.1

theorem parseNumber_eq_ok {param : String} {s : List Char} {x : Float} :
    parseNumber param s = .ok x ↔ Reads s x := by
  rw [parseNumber, Reads]
  split
  · next y hy =>
    rw [hy, Outcome.check_eq_ok, Option.some.injEq, and_congr_left_iff]
    rintro rfl
    rfl
  · next hnone => simp [hnone]

theorem parseNumbers_eq_ok {raw param : String} {xs : List Float} :
    parseNumbers raw param = .ok xs ↔ ListsNumbers raw xs := by
  rw [parseNumbers, Outcome.mapM_eq_ok, ListsNumbers]
  simp only [parseNumber_eq_ok]

/-! ### Positions -/

/-- The position is finite and lies on the map. -/
structure Position.InRange (p : Position) : Prop where
  isFinite : p.IsFinite
  lon : -180 ≤ value p.lon ∧ value p.lon ≤ 180
  lat : -90 ≤ value p.lat ∧ value p.lat ≤ 90

/-- The coordinates of positions one after another. -/
def coordinates (ps : List Position) : List Float := ps.flatMap fun p => [p.lon, p.lat]

/-- The text lists the coordinates of positions of the map. -/
def ListsPositions (raw : String) (ps : List Position) : Prop :=
  ListsNumbers raw (coordinates ps) ∧ ∀ p ∈ ps, p.InRange

theorem checkedPosition_eq_ok {param : String} {lon lat : Float} {p : Position}
    (hlon : lon.isFinite = true) (hlat : lat.isFinite = true) :
    checkedPosition param lon lat = .ok p ↔ p = ⟨lon, lat⟩ ∧ p.InRange := by
  have hbounds : (-180.0 ≤ lon ∧ lon ≤ 180.0 ∧ -90.0 ≤ lat ∧ lat ≤ 90.0) ↔
      (-180 ≤ value lon ∧ value lon ≤ 180) ∧ -90 ≤ value lat ∧ value lat ≤ 90 := by
    rw [Number.le_iff_value (by decide +kernel) hlon, Number.le_iff_value hlon (by decide +kernel),
      Number.le_iff_value (by decide +kernel) hlat, Number.le_iff_value hlat (by decide +kernel),
      show value (-180.0) = -180 by decide +kernel, show value 180.0 = 180 by decide +kernel,
      show value (-90.0) = -90 by decide +kernel, show value 90.0 = 90 by decide +kernel, and_assoc]
  rw [checkedPosition, Outcome.check_eq_ok, hbounds]
  constructor
  · rintro ⟨h, rfl⟩
    exact ⟨rfl, ⟨hlon, hlat⟩, h.1, h.2⟩
  · rintro ⟨rfl, h⟩
    exact ⟨⟨h.lon, h.lat⟩, rfl⟩

theorem pairUp_eq_ok {param : String} {xs : List Float} {ps : List Position}
    (hx : ∀ x ∈ xs, x.isFinite = true) (heven : xs.length % 2 = 0) :
    pairUp param xs = .ok ps ↔ xs = coordinates ps ∧ ∀ p ∈ ps, p.InRange := by
  induction xs using pairUp.induct generalizing ps with
  | case1 lon lat xs ih =>
    simp only [List.forall_mem_cons, List.length_cons] at hx heven
    have ih (qs : List Position) :
        pairUp param xs = .ok qs ↔ xs = coordinates qs ∧ ∀ p ∈ qs, p.InRange :=
      ih hx.2.2 (by omega)
    simp only [pairUp, Outcome.bind_eq_ok, Outcome.pure_eq_ok, checkedPosition_eq_ok hx.1 hx.2.1, ih]
    constructor
    · rintro ⟨p, ⟨rfl, hp⟩, qs, ⟨rfl, hqs⟩, rfl⟩
      exact ⟨rfl, List.forall_mem_cons.2 ⟨hp, hqs⟩⟩
    · rintro ⟨hxs, hps⟩
      cases ps with
      | nil => cases hxs
      | cons p qs =>
        simp only [coordinates, List.flatMap_cons, List.cons_append, List.nil_append,
          List.cons.injEq] at hxs
        obtain ⟨rfl, rfl, rfl⟩ := hxs
        rw [List.forall_mem_cons] at hps
        exact ⟨p, ⟨rfl, hps.1⟩, qs, ⟨rfl, hps.2⟩, rfl⟩
  | case2 xs hxs =>
    -- no number is left, since their count is even
    obtain rfl : xs = [] := by
      rcases xs with _ | ⟨x, _ | ⟨y, r⟩⟩
      · rfl
      · simp at heven
      · exact absurd rfl (hxs x y r)
    cases ps with
    | nil => simp [pairUp, coordinates]
    | cons p ps => simp [pairUp, coordinates]

/-! ### Readers -/

theorem parseBox_eq_ok {raw : String} {b : Box} :
    parseBox raw = .ok b ↔ ∃ p q, ListsPositions raw [p, q] ∧ Box.ofCorners p q = b := by
  simp only [parseBox, Outcome.bind_eq_ok, parseNumbers_eq_ok]
  constructor
  · rintro ⟨xs, hxs, h⟩
    have hx := hxs.isFinite
    split at h
    · next lon lat lon' lat' =>
      simp only [List.forall_mem_cons] at hx
      simp only [Outcome.bind_eq_ok, Outcome.pure_eq_ok, checkedPosition_eq_ok hx.1 hx.2.1,
        checkedPosition_eq_ok hx.2.2.1 hx.2.2.2.1] at h
      obtain ⟨p, ⟨rfl, hp⟩, q, ⟨rfl, hq⟩, h⟩ := h
      exact ⟨⟨lon, lat⟩, ⟨lon', lat'⟩, ⟨hxs, by simp [hp, hq]⟩, h⟩
    · cases h
  · rintro ⟨p, q, ⟨hxs, hps⟩, rfl⟩
    simp only [List.forall_mem_cons] at hps
    have hp := hps.1.isFinite
    have hq := hps.2.1.isFinite
    refine ⟨_, hxs, ?_⟩
    simp only [coordinates, List.flatMap_cons, List.flatMap_nil, List.append_nil, List.cons_append,
      List.nil_append, Outcome.bind_eq_ok, Outcome.pure_eq_ok, checkedPosition_eq_ok hp.1 hp.2,
      checkedPosition_eq_ok hq.1 hq.2]
    exact ⟨p, ⟨rfl, hps.1⟩, q, ⟨rfl, hps.2.1⟩, rfl⟩

theorem parseCentre_eq_ok {raw : String} {p : Position} :
    parseCentre raw = .ok p ↔ ListsPositions raw [p] := by
  simp only [parseCentre, Outcome.bind_eq_ok, parseNumbers_eq_ok]
  constructor
  · rintro ⟨xs, hxs, h⟩
    have hx := hxs.isFinite
    split at h
    · next lon lat =>
      simp only [List.forall_mem_cons] at hx
      obtain ⟨rfl, hp⟩ := (checkedPosition_eq_ok hx.1 hx.2.1).1 h
      exact ⟨hxs, by simp [hp]⟩
    · cases h
  · rintro ⟨hxs, hps⟩
    have hp := hps p List.mem_cons_self
    exact ⟨_, hxs, (checkedPosition_eq_ok hp.isFinite.1 hp.isFinite.2).2 ⟨rfl, hp⟩⟩

theorem parseRadius_eq_ok {raw : String} {x : Float} :
    parseRadius raw = .ok x ↔ Reads raw.toList x ∧ 0 < value x := by
  rw [parseRadius, Reads]
  split
  · next y hy =>
    have hpos (hfin : y.isFinite = true) : 0.0 < y ↔ 0 < value y := by
      rw [Number.lt_iff_value (by decide +kernel) hfin, show value 0.0 = 0 by decide +kernel]
    rw [hy, Outcome.check_eq_ok, Option.some.injEq]
    constructor
    · rintro ⟨⟨hfin, h⟩, rfl⟩
      exact ⟨⟨hfin, rfl⟩, (hpos hfin).1 h⟩
    · rintro ⟨⟨hfin, rfl⟩, h⟩
      exact ⟨⟨hfin, (hpos hfin).2 h⟩, rfl⟩
  · next hnone => simp [hnone]

/-- The coordinates are the same numbers. -/
def Position.Same (p q : Position) : Prop := value p.lon = value q.lon ∧ value p.lat = value q.lat

theorem samePosition_iff {p q : Position} (hp : p.IsFinite) (hq : q.IsFinite) :
    samePosition p q = true ↔ p.Same q := by
  rw [samePosition, Bool.and_eq_true, Number.beq_iff_value hp.1 hq.1,
    Number.beq_iff_value hp.2 hq.2, Position.Same]

/-- The ring is long enough, its last point is the first again, and it encloses an area. -/
structure IsRing (ps : List Position) : Prop where
  length : minRingPoints ≤ ps.length
  closed : ∃ p q, ps.head? = some p ∧ ps.getLast? = some q ∧ p.Same q
  area : enclosesArea ps = true

theorem parseRing_eq_ok {raw : String} {ps : List Position} :
    parseRing raw = .ok ps ↔ ListsPositions raw ps ∧ IsRing ps := by
  simp only [parseRing, Outcome.bind_eq_ok, Outcome.throw_eq_ok, parseNumbers_eq_ok]
  constructor
  · rintro ⟨xs, hxs, heven, qs, hqs, hlen, h⟩
    obtain ⟨rfl, hrange⟩ := (pairUp_eq_ok hxs.isFinite (by omega)).1 hqs
    split at h
    · next p q hp hq =>
      simp only [Outcome.throw_eq_ok, Outcome.pure_eq_ok] at h
      obtain ⟨hsame, harea, rfl⟩ := h
      have hsame := (samePosition_iff (hrange p (List.mem_of_mem_head? hp)).isFinite
        (hrange q (List.mem_of_getLast? hq)).isFinite).1 (by simpa using hsame)
      exact ⟨⟨hxs, hrange⟩, not_lt.1 hlen, ⟨p, q, hp, hq, hsame⟩, by simpa using harea⟩
    · cases h
  · rintro ⟨⟨hxs, hps⟩, hlen, ⟨p, q, hp, hq, hsame⟩, harea⟩
    have heven : (coordinates ps).length % 2 = 0 := by
      simp [coordinates]
    have hsame := (samePosition_iff (hps p (List.mem_of_mem_head? hp)).isFinite
      (hps q (List.mem_of_getLast? hq)).isFinite).2 hsame
    refine ⟨_, hxs, not_not.2 heven, ps, (pairUp_eq_ok hxs.isFinite heven).2 ⟨rfl, hps⟩,
      not_lt.2 hlen, ?_⟩
    rw [hp, hq]
    simp [hsame, harea]

/-! ### The four parameters -/

/-- The zones that parameters describe: those of one kind are given, and the others are not. -/
inductive ZoneParams.Describes : ZoneParams → Zone → Prop
  | box {raw : String} {p q : Position} (h : ListsPositions raw [p, q]) :
      Describes { box := some raw } (.box (Box.ofCorners p q))
  | disc {centre radius : String} {c : Position} {m : Float} (hc : ListsPositions centre [c])
      (hm : Reads radius.toList m) (hpos : 0 < value m) :
      Describes { centre := some centre, radius := some radius } (.disc c m)
  | ring {raw : String} {ps : List Position} (h : ListsPositions raw ps) (hring : IsRing ps) :
      Describes { ring := some raw } (.ring ps)

/-- **What is accepted is what the parameters describe.** -/
theorem parseZone_eq_ok {p : ZoneParams} {z : Option Zone} :
    parseZone p = .ok z ↔ (p = {} ∧ z = none) ∨ ∃ w, p.Describes w ∧ z = some w := by
  constructor
  · intro h
    obtain ⟨box, centre, radius, ring⟩ := p
    unfold parseZone at h
    split at h
    · cases h
    · cases h
    · next hcentre hradius =>
      simp only at hcentre hradius
      subst hcentre hradius
      simp only [Outcome.guard_eq_ok, not_or, Bool.not_eq_true, Option.isSome_eq_false_iff,
        Option.isNone_iff_eq_none, Outcome.bind_eq_ok, Outcome.pure_eq_ok, parseCentre_eq_ok,
        parseRadius_eq_ok] at h
      obtain ⟨⟨rfl, rfl⟩, c, hc, m, ⟨hm, hpos⟩, rfl⟩ := h
      exact .inr ⟨_, .disc hc hm hpos, rfl⟩
    · next hcentre hradius =>
      simp only at hcentre hradius h
      subst hcentre hradius
      split at h
      · cases h
      · obtain ⟨b, hb, rfl⟩ := Outcome.map_eq_ok.1 h
        obtain ⟨p, q, hps, rfl⟩ := parseBox_eq_ok.1 hb
        exact .inr ⟨_, .box hps, rfl⟩
      · obtain ⟨ps, hps, rfl⟩ := Outcome.map_eq_ok.1 h
        obtain ⟨hps, hring⟩ := parseRing_eq_ok.1 hps
        exact .inr ⟨_, .ring hps hring, rfl⟩
      · exact .inl ⟨rfl, (Except.ok.inj h).symm⟩
  · rintro (⟨rfl, rfl⟩ | ⟨w, hw, rfl⟩)
    · rfl
    · cases hw with
      | box h => exact Outcome.map_eq_ok.2 ⟨_, parseBox_eq_ok.2 ⟨_, _, h, rfl⟩, rfl⟩
      | disc hc hm hpos =>
        simp [parseZone, parseCentre_eq_ok.2 hc, parseRadius_eq_ok.2 ⟨hm, hpos⟩]
      | ring h hring => exact Outcome.map_eq_ok.2 ⟨_, parseRing_eq_ok.2 ⟨h, hring⟩, rfl⟩

/-! ### The zones of requests -/

/-- The zone has the form that reading gives it. -/
def Zone.IsNormal : Zone → Prop
  | .box b => b.IsFinite ∧
      (-180 ≤ value b.west ∧ value b.west ≤ value b.east ∧ value b.east ≤ 180) ∧
        -90 ≤ value b.south ∧ value b.south ≤ value b.north ∧ value b.north ≤ 90
  | .disc c m => c.InRange ∧ m.isFinite = true ∧ 0 < value m
  | .ring ps => (∀ p ∈ ps, p.InRange) ∧ IsRing ps

theorem isFinite_ofCorners {p q : Position} (hp : p.IsFinite) (hq : q.IsFinite) :
    (Box.ofCorners p q).IsFinite := by
  have hlesser {x y : Float} (hx : x.isFinite = true) (hy : y.isFinite = true) :
      (Number.lesser x y).isFinite = true := by
    rcases Number.lesser_eq_or x y with h | h <;> rw [h] <;> assumption
  have hgreater {x y : Float} (hx : x.isFinite = true) (hy : y.isFinite = true) :
      (Number.greater x y).isFinite = true := by
    rcases Number.greater_eq_or x y with h | h <;> rw [h] <;> assumption
  exact ⟨hlesser hp.1 hq.1, hlesser hp.2 hq.2, hgreater hp.1 hq.1, hgreater hp.2 hq.2⟩

/-- The box between two corners lies on the map. -/
theorem isNormal_ofCorners {p q : Position} (hp : p.InRange) (hq : q.InRange) :
    (Zone.box (Box.ofCorners p q)).IsNormal := by
  refine ⟨isFinite_ofCorners hp.isFinite hq.isFinite, ?_⟩
  rw [Box.ofCorners, Number.value_lesser hp.isFinite.1 hq.isFinite.1,
    Number.value_greater hp.isFinite.1 hq.isFinite.1,
    Number.value_lesser hp.isFinite.2 hq.isFinite.2,
    Number.value_greater hp.isFinite.2 hq.isFinite.2]
  exact ⟨⟨le_min hp.lon.1 hq.lon.1, min_le_max, max_le hp.lon.2 hq.lon.2⟩,
    le_min hp.lat.1 hq.lat.1, min_le_max, max_le hp.lat.2 hq.lat.2⟩

/-- **The zones of requests are normal.** -/
theorem isNormal_of_parseZone {p : ZoneParams} {z : Zone} (h : parseZone p = .ok (some z)) :
    z.IsNormal := by
  rcases parseZone_eq_ok.1 h with ⟨-, h⟩ | ⟨w, hw, h⟩
  · cases h
  · obtain rfl := Option.some.inj h
    cases hw with
    | box hps => exact isNormal_ofCorners (hps.2 _ (by simp)) (hps.2 _ (by simp))
    | disc hc hm hpos => exact ⟨hc.2 _ (by simp), hm.1, hpos⟩
    | ring hps hring => exact ⟨hps.2, hring⟩

theorem Zone.IsNormal.isFinite {z : Zone} (h : z.IsNormal) : z.IsFinite := by
  cases z with
  | box b => exact h.1
  | disc c m => exact ⟨h.1.isFinite, h.2.1⟩
  | ring ps => exact fun p hp => (h.1 p hp).isFinite

theorem isFinite_of_parseZone {p : ZoneParams} {z : Option Zone} (h : parseZone p = .ok z) :
    ∀ x ∈ z, x.IsFinite := by
  rintro x rfl
  exact (isNormal_of_parseZone h).isFinite

theorem isOrdered_of_parseZone {p : ZoneParams} {b : Box} (h : parseZone p = .ok (some (.box b))) :
    b.IsOrdered := by
  obtain ⟨⟨hwest, hsouth, heast, hnorth⟩, ⟨-, hlon, -⟩, -, hlat, -⟩ := isNormal_of_parseZone h
  exact ⟨Datum.realLe_iff.2 ((Number.orderKey_le_iff_value hwest heast).2 hlon),
    Datum.realLe_iff.2 ((Number.orderKey_le_iff_value hsouth hnorth).2 hlat)⟩

/-! ### Four texts of one box -/

/-- Four texts with commas between them. -/
def commaJoined (a b c d : String) : String := a ++ "," ++ b ++ "," ++ c ++ "," ++ d

/-- The text stands for the finite number and has no comma. -/
def ReadsAlone (s : String) (x : Float) : Prop := ',' ∉ s.toList ∧ Reads s.toList x

/-- Four numbers that stand in four texts stand in one each. -/
theorem listsNumbers_commaJoined {a b c d : String} {x y z t : Float} :
    ListsNumbers (commaJoined a b c d) [x, y, z, t] ↔
      ReadsAlone a x ∧ ReadsAlone b y ∧ ReadsAlone c z ∧ ReadsAlone d t := by
  have hpieces : Text.pieces ',' (commaJoined a b c d).toList = Text.pieces ',' a.toList ++
      (Text.pieces ',' b.toList ++ (Text.pieces ',' c.toList ++ Text.pieces ',' d.toList)) := by
    simp [commaJoined, Text.pieces_append_sep]
  constructor
  · intro h
    rw [ListsNumbers, hpieces] at h
    have hlength := h.length_eq
    simp only [List.length_append, List.length_cons, List.length_nil] at hlength
    have hpos (s : String) : 0 < (Text.pieces ',' s.toList).length :=
      List.length_pos_iff.2 (Text.pieces_ne_nil ',' s.toList)
    have ha := hpos a
    have hb := hpos b
    have hc := hpos c
    have hd := hpos d
    obtain ⟨ha, hpa⟩ := Text.pieces_of_length_eq_one ',' (s := a.toList) (by omega)
    obtain ⟨hb, hpb⟩ := Text.pieces_of_length_eq_one ',' (s := b.toList) (by omega)
    obtain ⟨hc, hpc⟩ := Text.pieces_of_length_eq_one ',' (s := c.toList) (by omega)
    obtain ⟨hd, hpd⟩ := Text.pieces_of_length_eq_one ',' (s := d.toList) (by omega)
    rw [hpa, hpb, hpc, hpd] at h
    simp only [List.cons_append, List.nil_append, List.forall₂_cons] at h
    exact ⟨⟨ha, h.1⟩, ⟨hb, h.2.1⟩, ⟨hc, h.2.2.1⟩, hd, h.2.2.2.1⟩
  · rintro ⟨⟨ha, hx⟩, ⟨hb, hy⟩, ⟨hc, hz⟩, hd, ht⟩
    rw [ListsNumbers, hpieces, Text.pieces_of_not_mem ha, Text.pieces_of_not_mem hb,
      Text.pieces_of_not_mem hc, Text.pieces_of_not_mem hd]
    exact .cons hx (.cons hy (.cons hz (.cons ht .nil)))

/-- The sides are the same numbers. -/
def Box.Same (b c : Box) : Prop :=
  (value b.west = value c.west ∧ value b.south = value c.south) ∧
    value b.east = value c.east ∧ value b.north = value c.north

theorem Box.Same.trans {b c d : Box} (hbc : b.Same c) (hcd : c.Same d) : b.Same d :=
  ⟨⟨hbc.1.1.trans hcd.1.1, hbc.1.2.trans hcd.1.2⟩, hbc.2.1.trans hcd.2.1, hbc.2.2.trans hcd.2.2⟩

/-- The position with the longitude of one position and the latitude of another. -/
def Position.mixed (p q : Position) : Position := ⟨p.lon, q.lat⟩

theorem Position.InRange.mixed {p q : Position} (hp : p.InRange) (hq : q.InRange) :
    (p.mixed q).InRange :=
  ⟨⟨hp.isFinite.1, hq.isFinite.2⟩, hp.lon, hq.lat⟩

theorem Box.same_ofCorners_swap {p q : Position} (hp : p.IsFinite) (hq : q.IsFinite) :
    (Box.ofCorners q p).Same (Box.ofCorners p q) := by
  simp only [Same, ofCorners, Number.value_lesser, Number.value_greater, hp.1, hp.2, hq.1, hq.2,
    min_comm, max_comm, and_self]

theorem Box.same_ofCorners_mixed {p q : Position} (hp : p.IsFinite) (hq : q.IsFinite) :
    (Box.ofCorners (p.mixed q) (q.mixed p)).Same (Box.ofCorners p q) := by
  simp only [Same, ofCorners, Position.mixed, Number.value_lesser, Number.value_greater, hp.1, hp.2,
    hq.1, hq.2, min_comm, max_comm, and_self]

/-- **A box can be written from any of its corners.** -/
theorem parseBox_four_ways {a b c d : String} {e : Box} (h : parseBox (commaJoined a b c d) = .ok e) :
    (∃ f, parseBox (commaJoined c d a b) = .ok f ∧ f.Same e) ∧
      (∃ f, parseBox (commaJoined a d c b) = .ok f ∧ f.Same e) ∧
        ∃ f, parseBox (commaJoined c b a d) = .ok f ∧ f.Same e := by
  obtain ⟨p, q, ⟨hnumbers, hps⟩, rfl⟩ := parseBox_eq_ok.1 h
  obtain ⟨ha, hb, hc, hd⟩ := listsNumbers_commaJoined.1 hnumbers
  have hp := hps p (by simp)
  have hq := hps q (by simp)
  have hpq := hp.mixed hq
  have hqp := hq.mixed hp
  have hmixed := Box.same_ofCorners_mixed hp.isFinite hq.isFinite
  refine ⟨⟨_, parseBox_eq_ok.2 ⟨q, p, ⟨listsNumbers_commaJoined.2 ⟨hc, hd, ha, hb⟩, ?_⟩, rfl⟩, ?_⟩,
    ⟨_, parseBox_eq_ok.2 ⟨p.mixed q, q.mixed p,
      ⟨listsNumbers_commaJoined.2 ⟨ha, hd, hc, hb⟩, ?_⟩, rfl⟩, hmixed⟩,
    ⟨_, parseBox_eq_ok.2 ⟨q.mixed p, p.mixed q,
      ⟨listsNumbers_commaJoined.2 ⟨hc, hb, ha, hd⟩, ?_⟩, rfl⟩, ?_⟩⟩
  · simp [hp, hq]
  · exact Box.same_ofCorners_swap hp.isFinite hq.isFinite
  · simp [hpq, hqp]
  · simp [hpq, hqp]
  · exact (Box.same_ofCorners_swap hpq.isFinite hqp.isFinite).trans hmixed

end Choropleth
