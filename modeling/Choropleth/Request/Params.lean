import Choropleth.Text.Blank

/-!
# Request parameters

The parameters of a request are pairs of a name and a value in the order of the request; a name may
occur more than once.

* `Params.all`, `Params.allOf`: the values of a name, or of several names taken together;
* `Params.first?`: the first value of a name that is not blank, without the blanks around it.
-/

namespace Choropleth

/-- The parameters of a request. -/
abbrev Params := List (String × String)

namespace Params

/-- The values of a name. -/
def all (params : Params) (name : String) : List String :=
  (params.filter fun p => p.1 = name).map Prod.snd

/-- The values of any of the names, in the order of the request. -/
def allOf (params : Params) (names : List String) : List String :=
  (params.filter fun p => p.1 ∈ names).map Prod.snd

/-- The first value of a name that is not blank, without the blanks around it. -/
def first? (params : Params) (name : String) : Option String :=
  ((params.all name).map Text.trimString).find? fun v => v ≠ ""

end Params
end Choropleth
