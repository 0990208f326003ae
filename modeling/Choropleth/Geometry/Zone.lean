import Choropleth.Number.Notation
import Choropleth.Text.Split

/-!
# Positions, boxes and zones

Coordinates are degrees of longitude and latitude.

* `Position`, `Box`: a point and a box of the map;
* `Zone`: the part of the map that a request is restricted to;
* `Zone.envelope?`: the least box around a zone;
* `Zone.wellKnownText?`: the ring of a zone as well-known text.
-/

namespace Choropleth

/-- A point of the map. -/
structure Position where
  lon : Float
  lat : Float
deriving DecidableEq

/-- A box of the map between two meridians and two parallels. -/
structure Box where
  west : Float
  south : Float
  east : Float
  north : Float
deriving DecidableEq

namespace Box

/-- The box with two opposite corners, on either diagonal. -/
def ofCorners (a b : Position) : Box where
  west := Number.lesser a.lon b.lon
  south := Number.lesser a.lat b.lat
  east := Number.greater a.lon b.lon
  north := Number.greater a.lat b.lat

/-- The box of a single point. -/
def ofPosition (p : Position) : Box := ⟨p.lon, p.lat, p.lon, p.lat⟩

/-- The least box around a box and a point. -/
def extend (b : Box) (p : Position) : Box where
  west := Number.lesser b.west p.lon
  south := Number.lesser b.south p.lat
  east := Number.greater b.east p.lon
  north := Number.greater b.north p.lat

/-- The middle of a box. -/
def centre (b : Box) : Position :=
  ⟨Number.midpoint b.west b.east, Number.midpoint b.south b.north⟩

end Box

/-- The part of the map that a request is restricted to. -/
inductive Zone
  /-- The areas whose envelope meets a box. -/
  | box (bounds : Box)
  /-- The areas whose centroid lies within a distance of a centre. -/
  | disc (centre : Position) (metres : Float)
  /-- The areas whose boundary meets the inside of a ring; the last point is the first again. -/
  | ring (points : List Position)
deriving DecidableEq

namespace Zone

/-- The least box around a zone. That of a disc depends on its latitude and is not drawn. -/
def envelope? : Zone → Option Box
  | box bounds => some bounds
  | disc _ _ => none
  | ring [] => none
  | ring (p :: r) => some ((p :: r).foldl Box.extend (Box.ofPosition p))

/-- A point in well-known text. -/
def pointText (p : Position) : String :=
  tableNotation.write p.lon ++ " " ++ tableNotation.write p.lat

/-- The ring of a zone as well-known text. -/
def wellKnownText? : Zone → Option String
  | ring points => some ("POLYGON((" ++ Text.joinStrings ", " (points.map pointText) ++ "))")
  | _ => none

end Zone
end Choropleth
