/-!
# Area types

The areas of a census form layers, from the whole country down to output areas of a few streets.

* `AreaType`: the layers, from the coarsest to the finest;
* `AreaType.name`: the name by which requests, stores and file paths know a layer;
* `AreaType.parse?`: reads a name in any mixture of ASCII cases.
-/

namespace Choropleth

/-- The layers of census areas, from the coarsest to the finest. -/
inductive AreaType
  | country
  | region
  | district
  | middleLayer
  | lowerLayer
  | outputArea
deriving DecidableEq

namespace AreaType

/-- All layers in order. -/
def all : List AreaType := [country, region, district, middleLayer, lowerLayer, outputArea]

/-- The position of a layer, counted from the coarsest. -/
def index : AreaType → Nat
  | country => 0
  | region => 1
  | district => 2
  | middleLayer => 3
  | lowerLayer => 4
  | outputArea => 5

/-- The name of a layer. -/
def name : AreaType → String
  | country => "CTRY"
  | region => "RGN"
  | district => "LAD"
  | middleLayer => "MSOA"
  | lowerLayer => "LSOA"
  | outputArea => "OA"

/-- The layer with exactly the given name. -/
def ofName? (s : String) : Option AreaType := all.find? fun t => t.name = s

/-- The layer with the given name, ASCII letters being taken in either case. -/
def parse? (s : String) : Option AreaType := ofName? (String.ofList (s.toList.map Char.toUpper))

theorem mem_all (t : AreaType) : t ∈ all := by cases t <;> decide

theorem name_injective {t u : AreaType} (h : t.name = u.name) : t = u := by
  cases t <;> cases u <;> first | rfl | (simp [name] at h)

theorem ofName?_name (t : AreaType) : ofName? t.name = some t := by cases t <;> decide

end AreaType
end Choropleth
