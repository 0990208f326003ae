import Choropleth.Geometry.Zone
import Choropleth.Json.Basic

/-!
# Zones in JSON

* `Position.toJson`, `Box.toJson`, `Zone.toJson`: positions, boxes and zones as JSON values.
-/

namespace Choropleth

/-- A position as a JSON value. -/
def Position.toJson (p : Position) : Json := .object [("lon", .float p.lon), ("lat", .float p.lat)]

/-- The members of a box. -/
def Box.toMembers (b : Box) : Json.Members :=
  [("west", .float b.west), ("south", .float b.south), ("east", .float b.east),
    ("north", .float b.north)]

/-- A box as a JSON value. -/
def Box.toJson (b : Box) : Json := .object b.toMembers

/-- A zone as a JSON value. Its kind comes first. -/
def Zone.toJson : Zone → Json
  | .box b => .object (("type", .string "boundingBox") :: b.toMembers)
  | .disc c m => .object [("type", .string "radius"), ("centre", c.toJson), ("metres", .float m)]
  | .ring ps => .object [("type", .string "polygon"), ("ring", .array (ps.map Position.toJson))]

end Choropleth
