import Choropleth.Json.Basic

/-!
# Reading values out of JSON values

* `Json.text?`, `Json.number?`, `Json.whole?`: strings and numbers;
* `Json.listOf?`, `Json.tableOf?`: arrays and objects whose values have one shape;
* `Json.record?`: the fields of a record, which is written as an object or as an array.
-/

namespace Choropleth
namespace Json

/-- The text of a string. -/
def text? : Json → Option String
  | .string s => some s
  | _ => none

/-- A finite number; an integer stands for the nearest one. -/
def number? : Json → Option Float
  | .int i => some (Float.ofInt i)
  | .float x => if x.isFinite then some x else none
  | _ => none

/-- An integer between two bounds. -/
def whole? (low high : Int) : Json → Option Int
  | .int i => if low ≤ i ∧ i ≤ high then some i else none
  | _ => none

/-- The items of an array. -/
def listOf? {α : Type} (read? : Json → Option α) : Json → Option (List α)
  | .array items => items.mapM read?
  | _ => none

/-- The names and values of an object, as they are written. -/
def tableOf? {α : Type} (read? : Json → Option α) : Json → Option (List (String × α))
  | .object members => members.mapM fun (name, v) => (read? v).map fun a => (name, a)
  | _ => none

/-- The value of a name that has to occur exactly once. -/
def field? (members : Members) (name : String) : Option Json :=
  match valuesOf name members with
  | [v] => some v
  | _ => none

/-- The fields of a record in the order of their names. In an object other names are passed over; an
array has the fields in order and nothing else. -/
def record? (names : List String) : Json → Option (List Json)
  | .object members => names.mapM (field? members)
  | .array items => if items.length = names.length then some items else none
  | _ => none

end Json
end Choropleth
