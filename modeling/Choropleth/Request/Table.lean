import Choropleth.Condition.Basic
import Choropleth.Geometry.Reading
import Choropleth.Request.Params

/-!
# Requests for tables

* `TableRequest`: the areas and categories of a table, and the category to divide by;
* `TableRequest.ofParams`: reads a request;
* `TableRequest.condition`, `TableRequest.denominatorCondition?`: the observations it asks for.
-/

namespace Choropleth

/-- A request for a table of areas and categories. -/
structure TableRequest where
  release : Release
  areas : Selection
  categories : Selection
  tables : List String
  areaTypes : List AreaType
  zone : Option Zone
  divideBy : Option String
deriving DecidableEq

namespace TableRequest

/-- The parameters that describe a zone, as far as they are given. -/
def zoneParams (params : Params) : ZoneParams where
  box := params.first? "bbox"
  centre := params.first? "location"
  radius := params.first? "radius"
  ring := params.first? "polygon"

/-- Reads the zone of a request. -/
def zoneOfParams (params : Params) : Except QueryError (Option Zone) :=
  match parseZone (zoneParams params) with
  | .ok z => .ok z
  | .error e => .error (.invalidZone e.message)

/-- The request selects something: areas, categories, whole tables or a zone. -/
def isSelective (r : TableRequest) : Bool :=
  !(r.areas.isEmpty && r.categories.isEmpty && r.tables.isEmpty && r.zone.isNone)

/-- What a request that selects nothing is told. -/
def nothingSelected : String :=
  "at least one of rows, cols, censustable, bbox, location+radius, or polygon is required"

/-- Reads a request. -/
def ofParams (release : Release) (params : Params) : Except QueryError TableRequest := do
  let areas ← Selection.parse (params.allOf ["rows", "geocode"])
  let categories ← Selection.parse (params.allOf ["cols", "cat"])
  let tables ← parseCodes (params.all "censustable") "censustable"
  let areaTypes ← parseAreaTypes (params.all "geotype")
  let zone ← zoneOfParams params
  let request : TableRequest :=
    { release, areas, categories, tables, areaTypes, zone, divideBy := params.first? "divide_by" }
  if request.isSelective then pure request else throw (.missingParams nothingSelected)

/-- The condition for the areas of a request, categories left open. -/
def areaCondition (r : TableRequest) : Condition :=
  (((Condition.forRelease r.release).onAreas r.areas).onAreaTypes r.areaTypes).onZone r.zone

/-- The condition for the observations of a request. -/
def condition (r : TableRequest) : Condition :=
  r.areaCondition.onCategories r.categories r.tables

/-- The condition for the denominators of a request, if it has any: the category to divide by in
the same areas. -/
def denominatorCondition? (r : TableRequest) : Option Condition :=
  r.divideBy.map fun c => r.areaCondition.onCategories (.ofCodes [c]) []

/-- The area types of a request, as errors name them. -/
def areaTypeLabel (r : TableRequest) : String :=
  if r.areaTypes.isEmpty then "*" else Text.joinStrings "," (r.areaTypes.map AreaType.name)

end TableRequest
end Choropleth
