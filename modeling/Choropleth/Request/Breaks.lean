import Choropleth.Number.Reading
import Choropleth.Observation
import Choropleth.Request.Params
import Choropleth.Selection

/-!
# Requests for classes

* `BreaksRequest`: the categories and area types whose values are to be divided into classes;
* `BreaksRequest.ofParams`: reads a request.
-/

namespace Choropleth

/-- A request for the classes of some categories in some area types. -/
structure BreaksRequest where
  release : Release
  categories : List String
  areaTypes : List AreaType
  classes : Nat
  divideBy : Option String
deriving DecidableEq

namespace BreaksRequest

/-- Reads a number of classes. -/
def classesOfParam : Option String → Except QueryError Nat
  | none => .error (.missingParams "k is required")
  | some s =>
    match Number.readNat? Number.maxCount s.toList with
    | some 0 => .error (.missingParams "k must be a positive integer")
    | some n => .ok n
    | none => .error (.missingParams "k must be a positive integer")

/-- Reads a request. -/
def ofParams (release : Release) (params : Params) : Except QueryError BreaksRequest := do
  let categories ← parseCodes (params.all "cat") "cat"
  if categories.isEmpty then throw (.missingParams "cat is required")
  let areaTypes ← parseAreaTypes (params.all "geotype")
  if areaTypes.isEmpty then throw (.missingParams "geotype is required")
  let classes ← classesOfParam (params.first? "k")
  pure { release, categories, areaTypes, classes, divideBy := params.first? "divide_by" }

end BreaksRequest
end Choropleth
