import Choropleth.Batch.Basic
import Choropleth.Boundary.Document
import Choropleth.Boundary.Properties
import Choropleth.Csv
import Choropleth.Json.Reader

/-!
# Lookup tables

A lookup table lists the areas of boundary documents with their codes, types and names.

* `LookupRow`: a row of the table;
* `lookupRows`: the rows of a document;
* `writeLookup`: the table of several documents.
-/

namespace Choropleth

/-- An area with its code, its type and its names. -/
structure LookupRow where
  code : String
  areaType : String
  englishName : String
  welshName : String
deriving DecidableEq

namespace LookupRow

/-- The row of a boundary with the given properties; one without code or type has none. -/
def ofProperties? (p : Properties) : Option LookupRow :=
  p.codeAndType?.map fun (code, areaType) =>
    ⟨code, areaType, p.englishName.getD "", p.welshName.getD ""⟩

/-- The row as a record. -/
def record (r : LookupRow) : List String := [r.code, r.areaType, r.englishName, r.welshName]

end LookupRow

/-- The first record of a lookup table. -/
def lookupHeader : List String := ["geocode", "geotype", "ename", "wname"]

/-- The properties of a feature; of repeated members the last counts. -/
def readProperties (p : Option Json.Members) : Except BatchError Properties :=
  match Properties.ofMembers? (Json.sortMembers (p.getD [])) with
  | none => .error .json
  | some p => .ok p

/-- The rows of a document. -/
def lookupRows (text : String) : Except BatchError (List LookupRow) :=
  match (Json.parse? text).bind Boundary.featureProperties? with
  | none => .error .geoJson
  | some features => do
    let properties ← features.mapM readProperties
    pure (properties.filterMap LookupRow.ofProperties?)

/-- What has become of a lookup table. -/
structure LookupRun where
  /-- The text that has been written, also before an error. -/
  csv : String
  progress : List Progress
  result : Except BatchError Nat

/-- Writes the rows of documents behind those of the documents before them. -/
def writeLookupFrom (read : String → Except BatchError String) (written : Nat) (csv : Csv.Writer)
    (progress : List Progress) : List String → LookupRun
  | [] => ⟨csv.text, progress ++ [.finish (toString written ++ " geographies")], .ok written⟩
  | path :: rest =>
    let progress := progress ++ [.message path]
    match (read path).bind lookupRows with
    | .error e => ⟨csv.text, progress, .error e⟩
    | .ok rows =>
      match csv.writeAll (rows.map LookupRow.record) with
      | (some e, csv) => ⟨csv.text, progress, .error (.csv e)⟩
      | (none, csv) =>
        writeLookupFrom read (written + rows.length) csv (progress ++ [.advance 1]) rest

/-- The lookup table of the documents at some paths. -/
def writeLookup (read : String → Except BatchError String) (paths : List String) : LookupRun :=
  match ({} : Csv.Writer).write lookupHeader with
  | .error e => ⟨"", [], .error (.csv e)⟩
  | .ok csv => writeLookupFrom read 0 csv [.total paths.length] paths

end Choropleth
