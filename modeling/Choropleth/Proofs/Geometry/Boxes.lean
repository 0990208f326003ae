import Choropleth.Geometry.Zone
import Choropleth.Proofs.Number.Order

/-!
# Boxes that meet

Two boxes whose sides are in order have a point in common if and only if neither lies beside or
above the other, in the order in which a store compares numbers.

* `Box.IsOrdered`, `Box.Contains`, `Box.Meets`: sides in order, points inside, boxes side by side;
* `Box.meets_iff`: ordered boxes meet where they have a common point.
-/

namespace Choropleth

open Datum (realLe realLe_refl realLe_trans realLe_total)

namespace Box

/-- West comes before east and south before north. -/
def IsOrdered (b : Box) : Prop := realLe b.west b.east = true ∧ realLe b.south b.north = true

/-- The point lies in the box, its sides included. -/
def Contains (b : Box) (p : Position) : Prop :=
  (realLe b.west p.lon = true ∧ realLe p.lon b.east = true) ∧
    realLe b.south p.lat = true ∧ realLe p.lat b.north = true

/-- No side of one box lies beyond the opposite side of the other. -/
def Meets (b e : Box) : Prop :=
  (realLe b.west e.east = true ∧ realLe e.west b.east = true) ∧
    realLe b.south e.north = true ∧ realLe e.south b.north = true

/-- Two intervals share a number if neither begins after the other ends. -/
theorem exists_common {a b c d : Float} (hab : realLe a b = true) (hcd : realLe c d = true)
    (had : realLe a d = true) (hcb : realLe c b = true) :
    ∃ x, (realLe a x = true ∧ realLe x b = true) ∧ realLe c x = true ∧ realLe x d = true := by
  -- The larger of the two beginnings is common to both.
  rcases realLe_total a c with hac | hca
  · exact ⟨c, ⟨hac, hcb⟩, realLe_refl c, hcd⟩
  · exact ⟨a, ⟨realLe_refl a, hab⟩, hca, had⟩

/-- **Ordered boxes meet where they have a common point.** -/
theorem meets_iff {b e : Box} (hb : b.IsOrdered) (he : e.IsOrdered) :
    b.Meets e ↔ ∃ p, b.Contains p ∧ e.Contains p := by
  constructor
  · rintro ⟨⟨hbe, heb⟩, hbn, hen⟩
    obtain ⟨x, hbx, hex⟩ := exists_common hb.1 he.1 hbe heb
    obtain ⟨y, hby, hey⟩ := exists_common hb.2 he.2 hbn hen
    exact ⟨⟨x, y⟩, ⟨hbx, hby⟩, hex, hey⟩
  · rintro ⟨p, ⟨⟨hbw, hbe⟩, hbs, hbn⟩, ⟨hew, hee⟩, hes, hen⟩
    exact ⟨⟨realLe_trans hbw hee, realLe_trans hew hbe⟩, realLe_trans hbs hen,
      realLe_trans hes hbn⟩

end Box
end Choropleth
