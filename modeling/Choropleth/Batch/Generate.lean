import Choropleth.Batch.Run
import Choropleth.Batch.TileSpec
import Choropleth.Engine
import Choropleth.Json.Writer

/-!
# Batches of breaks and tiles

For the maps of a site two kinds of files are made ahead of time, both of shares, that is, of
categories divided by the totals of their tables: the breaks of a category in an area type, and the
table of a category in one tile of an area type.

* `Generator`: where files go and how they are computed;
* `BreaksTask`, `TileTask`: the tasks, with their paths and the texts of their files;
* `breaksTasks`, `tileTasks`: the tasks of a batch;
* `generateBreaks`, `generateTiles`: work off a batch.
-/

namespace Choropleth

/-- Where files go and how they are computed. -/
structure Generator where
  directory : String
  release : Release := {}
  engine : Engine := { ceiling := 400000 }
  /-- The number of classes of breaks. -/
  classes : Nat := 5
  /-- The orders in which the maps of a task are walked. -/
  arrangements : BreaksRequest → Arrangements := fun _ => .asTheyCome

/-- The totals column by which a category is divided. A worker is lost with a code that is too
wide. -/
def totalsOf (category : String) : Except BatchError String :=
  match Category.totals category with
  | .error (.tooWide _) => .error .workerLost
  | .error e => .error (.category e)
  | .ok t => .ok t

/-- The breaks of a category in an area type. -/
structure BreaksTask where
  areaType : AreaType
  category : String
deriving DecidableEq

namespace BreaksTask

/-- The path of the file. -/
def path (g : Generator) (k : BreaksTask) : String :=
  Path.joinAll g.directory ["breaks", k.areaType.name, k.category ++ ".json"]

/-- The text of the file. -/
def text (g : Generator) (s : Store) (k : BreaksTask) : Except BatchError String := do
  let totals ← totalsOf k.category
  let request : BreaksRequest :=
    { release := g.release
      categories := [k.category]
      areaTypes := [k.areaType]
      classes := g.classes
      divideBy := some totals }
  match g.engine.classify s request (g.arrangements request) with
  | .error e => throw (.query e)
  | .ok b => pure b.toJson.pretty

/-- Works off the task. -/
def generate (g : Generator) (s : Store) (k : BreaksTask) (t : Tree) :
    Except BatchError TaskOutcome × Tree :=
  produce k.category (k.path g) (fun _ => k.text g s) t

/-- The same step by step. -/
def job (g : Generator) (s : Store) (k : BreaksTask) : Job Tree :=
  production k.category (k.path g) fun _ => k.text g s

end BreaksTask

/-- The table of a category in a tile of an area type. -/
structure TileTask where
  areaType : AreaType
  tile : Tile
  category : String
deriving DecidableEq

namespace TileTask

/-- The path of the file. -/
def path (g : Generator) (k : TileTask) : String :=
  Path.joinAll g.directory [k.areaType.name, k.tile.name, k.category ++ ".csv"]

/-- The request for the table. -/
def request (g : Generator) (k : TileTask) : Except BatchError TableRequest := do
  let totals ← totalsOf k.category
  pure
    { release := g.release
      areas := {}
      categories := .ofCodes [k.category]
      tables := []
      areaTypes := [k.areaType]
      zone := some (.box k.tile.bounds.toBox)
      divideBy := some totals }

/-- The text of the file. -/
def text (g : Generator) (s : Store) (k : TileTask) : Except BatchError String := do
  let request ← k.request g
  match g.engine.table s request >>= Crosstab.toCsv with
  | .error e => throw (.query e)
  | .ok csv => pure csv

/-- Works off the task. -/
def generate (g : Generator) (s : Store) (k : TileTask) (t : Tree) :
    Except BatchError TaskOutcome × Tree :=
  produce k.category (k.path g) (fun _ => k.text g s) t

/-- The same step by step. -/
def job (g : Generator) (s : Store) (k : TileTask) : Job Tree :=
  production k.category (k.path g) fun _ => k.text g s

end TileTask

/-- Every category in every area type. -/
def breaksTasks (areaTypes : List AreaType) (categories : List String) : List BreaksTask :=
  areaTypes.flatMap fun t => categories.map fun c => ⟨t, c⟩

/-- Every category in every tile of every area type. -/
def tileTasks (spec : TileSpec) (categories : List String) : List TileTask :=
  spec.flatMap fun (t, tiles) => tiles.flatMap fun tile => categories.map fun c => ⟨t, tile, c⟩

/-- Works off the breaks of categories in area types. -/
def generateBreaks (g : Generator) (s : Store) (areaTypes : List AreaType)
    (categories : List String) (workers : Nat) (t : Tree) : Crew BreaksTask Tree :=
  Crew.runJobs (fun k => k.job g s) (breaksTasks areaTypes categories) workers t

/-- Works off the tables of categories in tiles. -/
def generateTiles (g : Generator) (s : Store) (spec : TileSpec) (categories : List String)
    (workers : Nat) (t : Tree) : Crew TileTask Tree :=
  Crew.runJobs (fun k => k.job g s) (tileTasks spec categories) workers t

end Choropleth
