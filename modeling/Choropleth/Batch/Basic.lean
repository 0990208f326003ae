import Choropleth.Category
import Choropleth.Csv
import Choropleth.Files.Replace
import Choropleth.QueryError

/-!
# Batches

A batch works off tasks, each of which writes a file unless it is there already.

* `BatchError`: why a task fails;
* `TaskOutcome`, `Summary`: what tasks have come to;
* `Progress`: what a batch reports while it runs;
* `produce`: works off one task.
-/

namespace Choropleth

/-- Why a task, or what it depends on, fails. -/
inductive BatchError
  /-- A file cannot be read or written. -/
  | file (fault : FileFault)
  /-- A text is not JSON of the shape that is needed. -/
  | json
  /-- A text is no boundary document. -/
  | geoJson
  /-- A table cannot be written down. -/
  | csv (e : Csv.Uneven)
  | query (e : QueryError)
  | category (e : CategoryError)
  /-- A list of tiles has an area type of this name. -/
  | unknownAreaType (name : String)
  /-- The file of a list has no entry. -/
  | emptyList (path : String)
  /-- A worker was lost in the middle of a task. -/
  | workerLost
deriving DecidableEq

namespace BatchError

/-- The wording of the error. -/
def message : BatchError → String
  | file _ => "the file cannot be read or written"
  | json => "the text is not of the expected form"
  | geoJson => "the text is no boundary document"
  | csv e => e.message
  | query e => e.message
  | category e => e.message
  | unknownAreaType name => "Invalid geotype: " ++ name
  | emptyList path => "Empty list: " ++ path
  | workerLost => "a worker was lost"

end BatchError

/-- What a task has come to. -/
inductive TaskOutcome
  /-- Its file has been written. -/
  | written (path : String)
  /-- Its file was there already. -/
  | existing (path : String)
  /-- Its category is a totals column, of which no file is made. -/
  | skipped (category : String)
deriving DecidableEq

/-- How many tasks have come to what. -/
structure Summary where
  written : Nat := 0
  existing : Nat := 0
  skipped : Nat := 0
deriving DecidableEq

namespace Summary

/-- Counts an outcome. -/
def record (s : Summary) : TaskOutcome → Summary
  | .written _ => { s with written := s.written + 1 }
  | .existing _ => { s with existing := s.existing + 1 }
  | .skipped _ => { s with skipped := s.skipped + 1 }

end Summary

/-- What a batch reports while it runs. -/
inductive Progress
  | total (count : Nat)
  | advance (count : Nat)
  | message (text : String)
  | finish (text : String)
deriving DecidableEq

/-- Works off the task of a category: writes a text at a path unless there is something. The text
is made only if it is needed. -/
def produce (category path : String) (text : Unit → Except BatchError String) (t : Tree) :
    Except BatchError TaskOutcome × Tree :=
  if Category.isTotals category then (.ok (.skipped category), t)
  else if t.isThere path then (.ok (.existing path), t)
  else
    match text () with
    | .error e => (.error e, t)
    | .ok s =>
      match t.replace path (.text s) with
      | (.error f, t) => (.error (.file f), t)
      | (.ok (), t) => (.ok (.written path), t)

end Choropleth
