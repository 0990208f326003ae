/-!
# Joined rows

A query runs over the observations of a store, each joined with its area, its category and its
release.

* `Truth`: the truth values of comparisons, in which a comparison with a missing value is unknown;
* `FactRow`: a joined row;
* `Column`: the columns that conditions speak of, with their names in query texts;
* `Datum`, `Column.datum`: the contents of a column.
-/

namespace Choropleth

/-- A truth value; `none` is unknown. -/
abbrev Truth := Option Bool

/-- An observation with its area, its category and its release. -/
structure FactRow where
  area : String
  areaType : String
  valid : Bool
  minLon : Option Float
  minLat : Option Float
  maxLon : Option Float
  maxLat : Option Float
  centroidLon : Option Float
  centroidLat : Option Float
  /-- The boundary in well-known binary. -/
  boundary : Option (List UInt8) := none
  category : String
  categoryYear : Int
  releaseYear : Int
  releaseLabel : String
  value : Float
  /-- Whether the boundary meets a ring in well-known text, as far as it has been found out. -/
  meets : String → Truth := fun _ => none

/-- The contents of a column or of a parameter; a missing value is `null`. -/
inductive Datum
  | null
  | flag (b : Bool)
  | int (i : Int)
  | real (x : Float)
  | text (s : String)
deriving DecidableEq

/-- The columns that conditions speak of. -/
inductive Column
  | areaCode
  | areaValid
  | areaTypeName
  | minLon
  | minLat
  | maxLon
  | maxLat
  | categoryCode
  | categoryYear
  | releaseYear
  | releaseLabel
deriving DecidableEq

namespace Column

/-- The name of a column in query texts. -/
def sql : Column → String
  | areaCode => "geo.code"
  | areaValid => "geo.valid"
  | areaTypeName => "geo_type.name"
  | minLon => "geo.min_lon"
  | minLat => "geo.min_lat"
  | maxLon => "geo.max_lon"
  | maxLat => "geo.max_lat"
  | categoryCode => "nomis_category.long_nomis_code"
  | categoryYear => "nomis_category.year"
  | releaseYear => "data_ver.census_year"
  | releaseLabel => "data_ver.ver_string"

/-- A number that may be missing. -/
def ofOption : Option Float → Datum
  | some x => .real x
  | none => .null

/-- The contents of a column in a row. -/
def datum (r : FactRow) : Column → Datum
  | areaCode => .text r.area
  | areaValid => .flag r.valid
  | areaTypeName => .text r.areaType
  | minLon => ofOption r.minLon
  | minLat => ofOption r.minLat
  | maxLon => ofOption r.maxLon
  | maxLat => ofOption r.maxLat
  | categoryCode => .text r.category
  | categoryYear => .int r.categoryYear
  | releaseYear => .int r.releaseYear
  | releaseLabel => .text r.releaseLabel

end Column

namespace Truth

/-- True if both are true, false if one is false, unknown otherwise. -/
def both : Truth → Truth → Truth
  | some false, _ => some false
  | _, some false => some false
  | some true, some true => some true
  | _, _ => none

/-- True if one is true, false if both are false, unknown otherwise. -/
def either : Truth → Truth → Truth
  | some true, _ => some true
  | _, some true => some true
  | some false, some false => some false
  | _, _ => none

/-- All are true. -/
def all (ts : List Truth) : Truth := ts.foldr both (some true)

/-- One of them is true. -/
def any (ts : List Truth) : Truth := ts.foldr either (some false)

end Truth

namespace Datum

/-- The order of numbers in a store: a NaN equals itself and exceeds every other number. -/
def realLe (x y : Float) : Bool := y.isNaN || x ≤ y

/-- At most; unknown if a value is missing. Texts are compared by their code points. -/
def le : Datum → Datum → Truth
  | flag b, flag c => some (!b || c)
  | int i, int j => some (i ≤ j)
  | real x, real y => some (realLe x y)
  | text s, text t => some (s ≤ t)
  | _, _ => none

/-- Equal; unknown if a value is missing. -/
def eq (a b : Datum) : Truth := Truth.both (le a b) (le b a)

/-- The text begins with another; unknown if one is missing. -/
def startsWith : Datum → Datum → Truth
  | text s, text t => some (t.toList.isPrefixOf s.toList)
  | _, _ => none

/-- The truth value of a flag. -/
def truth : Datum → Truth
  | flag b => some b
  | _ => none

end Datum
end Choropleth
