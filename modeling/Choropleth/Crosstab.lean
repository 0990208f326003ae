import Choropleth.Csv
import Choropleth.Keyed
import Choropleth.Number.Notation
import Choropleth.Observation
import Choropleth.QueryError

/-!
# Tables of areas and categories

A table has a row for every area and a column for every category, in the order in which they first
occur among its observations. A cell holds the last value of its area and category and may be empty.

* `Crosstab.insert`: adds an observation;
* `Crosstab.ofObservations`: the table of a list of observations;
* `Crosstab.cell?`: the value of an area and a category;
* `Crosstab.toCsv`: the table as comma-separated values.
-/

namespace Choropleth

/-- A table of areas and categories. A cell is keyed by the positions of its row and its column. -/
structure Crosstab where
  areas : List String := []
  categories : List String := []
  cells : Keyed (Nat × Nat) Float := []
deriving DecidableEq

namespace Crosstab

/-- The position of a label, counted from the front; labels that are not there have none. -/
def position? (label : String) : List String → Option Nat
  | [] => none
  | l :: r => if l = label then some 0 else (position? label r).map (· + 1)

/-- The labels with one more at the end, unless it is there, and its position. -/
def place (label : String) (labels : List String) : Nat × List String :=
  match position? label labels with
  | some i => (i, labels)
  | none => (labels.length, labels ++ [label])

/-- Adds an observation. -/
def insert (t : Crosstab) (o : Observation) : Crosstab :=
  let (row, areas) := place o.area t.areas
  let (column, categories) := place o.category t.categories
  { areas, categories, cells := t.cells.put (row, column) o.value }

/-- The table of a list of observations. -/
def ofObservations (os : List Observation) : Crosstab := os.foldl insert {}

/-- The value of an area and a category. -/
def cell? (t : Crosstab) (area category : String) : Option Float := do
  let row ← position? area t.areas
  let column ← position? category t.categories
  t.cells.get? (row, column)

/-- The table has no cell. -/
def isEmpty (t : Crosstab) : Bool := t.cells.isEmpty

/-- The name of the column of area codes. -/
def areaColumn : String := "geography_code"

/-- The text of a cell; an empty cell has an empty one. -/
def cellText : Option Float → String
  | some x => tableNotation.write x
  | none => ""

/-- The record of a row. -/
def record (t : Crosstab) (row : Nat) (area : String) : List String :=
  area :: (List.range t.categories.length).map fun column =>
    cellText (t.cells.get? (row, column))

/-- The records of the table: the names of its columns, then its rows. -/
def records (t : Crosstab) : List (List String) :=
  (areaColumn :: t.categories) :: t.areas.mapIdx t.record

/-- The table as comma-separated values. -/
def toCsv (t : Crosstab) : Except QueryError String :=
  (Csv.writeEven t.records).mapError fun e => .render e.message

end Crosstab
end Choropleth
