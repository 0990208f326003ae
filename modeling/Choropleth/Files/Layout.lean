import Choropleth.Files.Path

/-!
# Where data is kept

The standard places of stores and of generated files, from the directory of the project.

* `dataDirectory`, `standardStorePath`, `generatedDirectory`: the places.
-/

namespace Choropleth

/-- The directory of all data. -/
def dataDirectory : String := "data"

/-- The path of the store, unless the settings name another. -/
def standardStorePath : String := Path.join dataDirectory "geodata.duckdb"

/-- The directory of generated files. -/
def generatedDirectory : String := Path.join dataDirectory "generated"

end Choropleth
