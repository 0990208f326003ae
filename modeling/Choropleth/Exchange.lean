import Choropleth.Breaks.Basic
import Choropleth.Geometry.Exchange
import Choropleth.Json.Decode
import Choropleth.Observation
import Choropleth.Selection

/-!
# Values in JSON

The shapes in which area types, observations, selections, releases, positions, boxes, zones and
breaks are exchanged: `toJson` writes a value and `ofJson?` reads it.
-/

namespace Choropleth

/-- An area type as a JSON value. -/
def AreaType.toJson (t : AreaType) : Json := .string t.name

/-- Reads an area type: its name, also as the name of the only member of an object, with `null`. -/
def AreaType.ofJson? : Json → Option AreaType
  | .string s => AreaType.ofName? s
  | .object [(s, .null)] => AreaType.ofName? s
  | _ => none

/-- An observation as a JSON value. -/
def Observation.toJson (o : Observation) : Json :=
  .object [("geography_code", .string o.area), ("category_code", .string o.category),
    ("value", .float o.value)]

/-- Reads an observation. -/
def Observation.ofJson? (v : Json) : Option Observation := do
  match ← v.record? ["geography_code", "category_code", "value"] with
  | [area, category, value] =>
    pure ⟨← area.text?, ← category.text?, ← value.number?⟩
  | _ => none

/-- A range of codes as a JSON value. -/
def CodeRange.toJson (r : CodeRange) : Json :=
  .object [("start", .string r.first), ("end", .string r.last)]

/-- Reads a range of codes. -/
def CodeRange.ofJson? (v : Json) : Option CodeRange := do
  match ← v.record? ["start", "end"] with
  | [first, last] => pure ⟨← first.text?, ← last.text?⟩
  | _ => none

/-- A selection as a JSON value. -/
def Selection.toJson (s : Selection) : Json :=
  .object [("singles", .array (s.codes.map .string)),
    ("ranges", .array (s.ranges.map CodeRange.toJson))]

/-- Reads a selection. -/
def Selection.ofJson? (v : Json) : Option Selection := do
  match ← v.record? ["singles", "ranges"] with
  | [codes, ranges] =>
    pure ⟨← codes.listOf? Json.text?, ← ranges.listOf? CodeRange.ofJson?⟩
  | _ => none

/-- A release as a JSON value. -/
def Release.toJson (r : Release) : Json :=
  .object [("census_year", .int r.year), ("ver_string", .string r.label)]

/-- The least and the greatest census year. -/
def yearBounds : Int × Int := (-2147483648, 2147483647)

/-- Reads a release. -/
def Release.ofJson? (v : Json) : Option Release := do
  match ← v.record? ["census_year", "ver_string"] with
  | [year, label] => pure ⟨← year.whole? yearBounds.1 yearBounds.2, ← label.text?⟩
  | _ => none

/-- Reads a position. -/
def Position.ofJson? (v : Json) : Option Position := do
  match ← v.record? ["lon", "lat"] with
  | [lon, lat] => pure ⟨← lon.number?, ← lat.number?⟩
  | _ => none

/-- Reads a box. -/
def Box.ofJson? (v : Json) : Option Box := do
  match ← v.record? ["west", "south", "east", "north"] with
  | [west, south, east, north] =>
    pure ⟨← west.number?, ← south.number?, ← east.number?, ← north.number?⟩
  | _ => none

/-- Reads the fields of a disc. -/
def Zone.discOfJson? (v : Json) : Option Zone := do
  match ← v.record? ["centre", "metres"] with
  | [centre, metres] => pure (.disc (← Position.ofJson? centre) (← metres.number?))
  | _ => none

/-- Reads the fields of a ring. -/
def Zone.ringOfJson? (v : Json) : Option Zone := do
  match ← v.record? ["ring"] with
  | [points] => pure (.ring (← points.listOf? Position.ofJson?))
  | _ => none

/-- Reads a zone. Its kind may stand anywhere among its members. -/
def Zone.ofJson? (v : Json) : Option Zone :=
  match v with
  | .object members =>
    if v.isSound then do
      let kind ← (← Json.field? members "type").text?
      let fields : Json := .object (members.filter fun m => m.1 ≠ "type")
      match kind with
      | "boundingBox" => (Box.ofJson? fields).map .box
      | "radius" => Zone.discOfJson? fields
      | "polygon" => Zone.ringOfJson? fields
      | _ => none
    else none
  | _ => none

/-- The table with the given entries; of several with one key the last is kept. -/
def sortedTable {α : Type} (entries : List (String × α)) : Keyed String α :=
  entries.foldl (fun t e => t.putSorted Breaks.less e.1 e.2) []

/-- Reads breaks. -/
def Breaks.ofJson? (v : Json) : Option Breaks :=
  (v.tableOf? fun entry =>
    (entry.tableOf? (Json.listOf? Json.number?)).map sortedTable).map sortedTable

end Choropleth
