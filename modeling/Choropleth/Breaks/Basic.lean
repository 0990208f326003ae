import Choropleth.AreaType
import Choropleth.Json.Basic
import Choropleth.Keyed

/-!
# Tables of breaks

For every category and area type a map needs the upper bounds of the classes and the least and the
greatest value.

* `Breaks`: these numbers, by category and then by area type, keys in ascending order;
* `Breaks.record`: adds the numbers of one category and area type;
* `Breaks.toJson`: the table as a JSON value.
-/

namespace Choropleth

/-- The numbers of every category, by the name of an area type. -/
abbrev Breaks := Keyed String (Keyed String (List Float))

namespace Breaks

/-- The order of keys. -/
def less (s t : String) : Bool := s < t

/-- The key of the least and the greatest value of an area type. -/
def extremesKey (t : AreaType) : String := t.name ++ "_min_max"

/-- Adds the upper bounds and the extremes of a category in an area type. -/
def record (b : Breaks) (t : AreaType) (category : String) (bounds : List Float)
    (least greatest : Float) : Breaks :=
  let entry := (b.get? category).getD []
  let entry := entry.putSorted less t.name bounds
  let entry := entry.putSorted less (extremesKey t) [least, greatest]
  b.putSorted less category entry

/-- Numbers as a JSON value. -/
def numbersToJson (xs : List Float) : Json := .array (xs.map .float)

/-- The table as a JSON value. -/
def toJson (b : Breaks) : Json :=
  .object (b.map fun (category, entry) =>
    (category, .object (entry.map fun (key, xs) => (key, numbersToJson xs))))

end Breaks
end Choropleth
