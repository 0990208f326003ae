/-!
# Observations and releases

* `Observation`: one value of one category in one area;
* `Release`: the census year and the label of a release of the data, to which every query is pinned.
-/

namespace Choropleth

/-- One value of one category in one area. -/
structure Observation where
  area : String
  category : String
  value : Float
deriving DecidableEq

/-- A release of the data. -/
structure Release where
  year : Int := 2011
  label : String := "2.2"
deriving DecidableEq

end Choropleth
