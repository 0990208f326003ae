import Choropleth.Number.Reading

/-!
# Category codes

A category code names a column of a census table: letters, digits and letters for the table, then
digits for the column. Column 1 of every table holds its totals.

* `Category.split?`: the table and the column of a code;
* `Category.isTotals`: the code of a totals column;
* `Category.totals`: the totals column of the table that a code belongs to.
-/

namespace Choropleth

/-- Why a code has no totals column. -/
inductive CategoryError
  /-- The code does not have the form of a category code, or its column number is out of range. -/
  | malformed (code : String)
  /-- The code is a totals column itself. -/
  | alreadyTotals (code : String)
  /-- The column of the code has more digits than a number can be written with. This is no error that
  anybody handles: the work breaks off. -/
  | tooWide (code : String)
deriving DecidableEq

namespace CategoryError

/-- The wording of the error. -/
def message : CategoryError → String
  | malformed code => "can't parse category code '" ++ code ++ "'"
  | alreadyTotals code => "category '" ++ code ++ "' is already the totals category"
  | tooWide _ => "Formatting argument out of range"

end CategoryError

namespace Category

/-- An upper-case ASCII letter. -/
def isLetter (c : Char) : Bool := 'A' ≤ c && c ≤ 'Z'

/-- Cuts a text after the characters at its front that satisfy `p`; there has to be one. -/
def run? (p : Char → Bool) (s : List Char) : Option (List Char × List Char) :=
  if (s.takeWhile p).isEmpty then none else some (s.takeWhile p, s.dropWhile p)

/-- The table and the column of a code, as texts. -/
def splitChars? (s : List Char) : Option (List Char × List Char) := do
  let (a, s) ← run? isLetter s
  let (b, s) ← run? Number.isDigit s
  let (c, s) ← run? isLetter s
  let (d, s) ← run? Number.isDigit s
  if s.isEmpty then some (a ++ b ++ c, d) else none

/-- The table and the column of a code. -/
def split? (code : String) : Option (String × String) :=
  (splitChars? code.toList).map fun (table, column) => (String.ofList table, String.ofList column)

/-- The number of a column, if it is within 64 bits. -/
def columnNumber? (column : List Char) : Option Nat := Number.readNat? Number.maxCount column

/-- The code of a totals column. -/
def isTotals (code : String) : Bool :=
  match splitChars? code.toList with
  | some (_, column) => columnNumber? column = some 1
  | none => false

/-- The greatest number of digits that a number can be padded to. -/
def maxWidth : Nat := 65535

/-- The column number 1 written with a given number of digits. -/
def firstColumn (width : Nat) : List Char := List.replicate (width - 1) '0' ++ ['1']

/-- The code of the totals column of the table that a code belongs to. -/
def totals (code : String) : Except CategoryError String :=
  match splitChars? code.toList with
  | none => .error (.malformed code)
  | some (table, column) =>
    match columnNumber? column with
    | none => .error (.malformed code)
    | some n =>
      if n = 1 then .error (.alreadyTotals code)
      else if maxWidth < column.length then .error (.tooWide code)
      else .ok (String.ofList (table ++ firstColumn column.length))

end Category
end Choropleth
