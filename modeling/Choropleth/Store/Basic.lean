import Choropleth.AreaType
import Choropleth.Condition.Row
import Choropleth.Geometry.Zone
import Choropleth.Observation

/-!
# Stores

A store keeps its observations in five tables: the names of area types, the areas, the categories,
the releases, and the facts, which refer to rows of the other tables. The number of a row is its
position in its table.

* `Store`: the tables; `{}` is the empty store;
* `Store.row?`: a fact with everything it refers to;
* `Store.rows`: all facts in this form.
-/

namespace Choropleth

/-- An area as it is stored. -/
structure AreaRow where
  /-- The number of the area type. -/
  typeId : Nat
  code : String
  name : Option String
  welshName : Option String
  valid : Bool
  envelope : Option Box
  centroid : Option Position
  /-- The boundary in well-known binary. -/
  boundary : Option (List UInt8)
deriving DecidableEq

/-- A category of a census year. -/
structure CategoryRow where
  code : String
  year : Int
deriving DecidableEq

/-- A value, with the numbers of its area, its category and its release. -/
structure FactEntry where
  areaId : Nat
  categoryId : Nat
  releaseId : Nat
  value : Float
deriving DecidableEq

/-- The tables of a store. -/
structure Store where
  types : List String := []
  areas : List AreaRow := []
  categories : List CategoryRow := []
  releases : List Release := []
  facts : List FactEntry := []
deriving DecidableEq

namespace Store

/-- A fact with everything it refers to. -/
def row? (s : Store) (f : FactEntry) : Option FactRow := do
  let area ← s.areas[f.areaId]?
  let areaType ← s.types[area.typeId]?
  let category ← s.categories[f.categoryId]?
  let release ← s.releases[f.releaseId]?
  pure
    { area := area.code
      areaType
      valid := area.valid
      minLon := area.envelope.map Box.west
      minLat := area.envelope.map Box.south
      maxLon := area.envelope.map Box.east
      maxLat := area.envelope.map Box.north
      centroidLon := area.centroid.map Position.lon
      centroidLat := area.centroid.map Position.lat
      boundary := area.boundary
      category := category.code
      categoryYear := category.year
      releaseYear := release.year
      releaseLabel := release.label
      value := f.value }

/-- All facts with what they refer to. -/
def rows (s : Store) : List FactRow := s.facts.filterMap s.row?

/-- The number of the area with a code. -/
def areaId? (s : Store) (code : String) : Option Nat := s.areas.findIdx? fun a => a.code = code

end Store
end Choropleth
