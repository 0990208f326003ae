import Choropleth.Digest
import Choropleth.Geometry.Exchange
import Choropleth.Json.Writer
import Choropleth.Request.Breaks
import Choropleth.Request.Table

/-!
# Keys of requests

Requests that ask for the same thing have the same key. The key is the digest of a canonical text
with one line per field: the values of the field in ascending order and without repetitions, with
commas between them.

* `canonicalLine`: the line of a field;
* `TableRequest.canonicalText`, `BreaksRequest.canonicalText`: the canonical texts;
* `TableRequest.key`, `BreaksRequest.key`: their digests.
-/

namespace Choropleth

/-- The texts in ascending order. -/
def ascending (values : List String) : List String := values.mergeSort fun s t => s ≤ t

/-- A list in which neighbours differ: of equal neighbours one is kept. -/
def withoutRepeats : List String → List String
  | [] => []
  | s :: r =>
    match withoutRepeats r with
    | [] => [s]
    | t :: r => if s = t then t :: r else s :: t :: r

/-- The line of a field. -/
def canonicalLine (name : String) (values : List String) : String :=
  name ++ "=" ++ Text.joinStrings "," (withoutRepeats (ascending values)) ++ "\n"

/-- The codes and ranges of a selection, as texts. -/
def Selection.texts (s : Selection) : List String :=
  s.codes ++ s.ranges.map fun r => r.first ++ "..." ++ r.last

/-- The lines of a release. -/
def Release.canonicalText (r : Release) : String :=
  canonicalLine "year" [toString r.year] ++ canonicalLine "ver" [r.label]

/-- The text of a zone in a canonical text. -/
def zoneText : Option Zone → String
  | none => ""
  | some z => z.toJson.compact

namespace TableRequest

/-- The canonical text of a request for a table. -/
def canonicalText (r : TableRequest) : String :=
  canonicalLine "endpoint" ["query"] ++ r.release.canonicalText ++
    canonicalLine "rows" r.areas.texts ++ canonicalLine "cols" r.categories.texts ++
    canonicalLine "censustable" r.tables ++
    canonicalLine "geotype" (r.areaTypes.map AreaType.name) ++
    canonicalLine "spatial" [zoneText r.zone] ++ canonicalLine "divide_by" r.divideBy.toList

/-- The key of a request for a table. -/
def key (r : TableRequest) : String := Digest.sha256Hex r.canonicalText

end TableRequest

namespace BreaksRequest

/-- The canonical text of a request for classes. -/
def canonicalText (r : BreaksRequest) : String :=
  canonicalLine "endpoint" ["ckmeans"] ++ r.release.canonicalText ++
    canonicalLine "cat" r.categories ++
    canonicalLine "geotype" (r.areaTypes.map AreaType.name) ++
    canonicalLine "k" [toString r.classes] ++ canonicalLine "divide_by" r.divideBy.toList

/-- The key of a request for classes. -/
def key (r : BreaksRequest) : String := Digest.sha256Hex r.canonicalText

end BreaksRequest
end Choropleth
