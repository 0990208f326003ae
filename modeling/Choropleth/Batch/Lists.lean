import Choropleth.Batch.Basic
import Choropleth.Text.Blank
import Choropleth.Text.Split

/-!
# Lists in files

* `readInput`: the text of a file;
* `loadList`: the lines of a file that are not blank, without the blanks around them;
* `loadCategories`: the same without the codes of totals columns.
-/

namespace Choropleth

/-- The lines of a text that are not blank, without the blanks around them. -/
def listEntries (text : String) : List String :=
  (((Text.pieces '\n' text.toList).map Text.trim).filter fun l => l ≠ []).map String.ofList

/-- The text of a file that a batch depends on. -/
def readInput (t : Tree) (path : String) : Except BatchError String :=
  match t.readText path with
  | .error f => .error (.file f)
  | .ok text => .ok text

/-- The entries of the list in a file. -/
def loadList (t : Tree) (path : String) : Except BatchError (List String) :=
  match readInput t path with
  | .error e => .error e
  | .ok text =>
    if (listEntries text).isEmpty then .error (.emptyList path) else .ok (listEntries text)

/-- The categories of the list in a file. Totals columns are left out, and nothing may be left. -/
def loadCategories (t : Tree) (path : String) : Except BatchError (List String) :=
  (loadList t path).map fun cs => cs.filter fun c => !Category.isTotals c

end Choropleth
