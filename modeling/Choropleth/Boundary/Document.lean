import Choropleth.Json.Decode

/-!
# Boundary documents

A boundary document is a GeoJSON object: a geometry, a feature, or a collection of features. All of
it has to be well formed, even the parts that are not used.

* `isGeometry`, `isFeature`: the grammar of geometries and features;
* `featureProperties?`: the properties of the features of a document.
-/

namespace Choropleth
namespace Boundary

/-- The kind of an object. -/
def kind? (members : Json.Members) : Option String := (Json.lookup? "type" members).bind Json.text?

/-- A number. -/
def isNumber : Json → Bool
  | .int _ => true
  | .float _ => true
  | _ => false

/-- An array whose items all satisfy `p`. -/
def isArrayOf (p : Json → Bool) : Json → Bool
  | .array items => items.all p
  | _ => false

/-- A position: two numbers or more. -/
def isPosition : Json → Bool
  | .array items => 2 ≤ items.length && items.all isNumber
  | _ => false

/-- The coordinates of each kind of geometry that has some. -/
def coordinatesOf? : String → Option (Json → Bool)
  | "Point" => some isPosition
  | "MultiPoint" => some (isArrayOf isPosition)
  | "LineString" => some (isArrayOf isPosition)
  | "MultiLineString" => some (isArrayOf (isArrayOf isPosition))
  | "Polygon" => some (isArrayOf (isArrayOf isPosition))
  | "MultiPolygon" => some (isArrayOf (isArrayOf (isArrayOf isPosition)))
  | _ => none

/-- A bounding box may be missing or `null`; otherwise it is an array of numbers. -/
def hasGoodBounds (members : Json.Members) : Bool :=
  match Json.lookup? "bbox" members with
  | none => true
  | some .null => true
  | some v => isArrayOf isNumber v

/-- The kind of a geometry that is made up of others. -/
def groupKind : String := "GeometryCollection"

/-- A geometry; `depth` bounds how deeply groups of geometries are nested. -/
def isGeometryWithin : Nat → Json → Bool
  | 0, _ => false
  | depth + 1, v =>
    match v with
    | .object members =>
      hasGoodBounds members &&
        match kind? members with
        | none => false
        | some kind =>
          match coordinatesOf? kind with
          | some p => (Json.lookup? "coordinates" members).any p
          | none =>
            kind = groupKind &&
              (Json.lookup? "geometries" members).any (isArrayOf (isGeometryWithin depth))
    | _ => false

/-- A geometry. -/
def isGeometry (v : Json) : Bool := isGeometryWithin (v.depth + 1) v

/-- A feature has a geometry, which may be `null`. -/
def hasGoodGeometry (members : Json.Members) : Bool :=
  match Json.lookup? "geometry" members with
  | none => false
  | some .null => true
  | some v => isGeometry v

/-- An identifier may be missing; otherwise it is a string or a number. -/
def hasGoodId (members : Json.Members) : Bool :=
  match Json.lookup? "id" members with
  | none => true
  | some (.string _) => true
  | some v => isNumber v

/-- The properties of a feature: none, or an object. -/
def properties? (members : Json.Members) : Option (Option Json.Members) :=
  match Json.lookup? "properties" members with
  | none => some none
  | some .null => some none
  | some (.object p) => some (some p)
  | some _ => none

/-- The properties of a feature, if it is well formed. -/
def ofFeature? : Json → Option (Option Json.Members)
  | .object members =>
    if kind? members = some "Feature" ∧ hasGoodBounds members ∧ hasGoodGeometry members ∧
        hasGoodId members then properties? members
    else none
  | _ => none

/-- The properties of the features of a collection. -/
def ofCollection? (members : Json.Members) : Option (List (Option Json.Members)) :=
  if hasGoodBounds members then
    (Json.lookup? "features" members).bind (Json.listOf? ofFeature?)
  else none

/-- The properties of the features of a document, if it is well formed. A geometry has none. -/
def featureProperties? (v : Json) : Option (List (Option Json.Members)) :=
  if v.isSound then
    match v with
    | .object members =>
      match kind? members with
      | some "FeatureCollection" => ofCollection? members
      | some "Feature" => (ofFeature? v).map fun p => [p]
      | _ => if isGeometry v then some [] else none
    | _ => none
  else none

end Boundary
end Choropleth
