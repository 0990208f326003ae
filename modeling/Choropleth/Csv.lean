/-!
# Comma-separated values

Records end with a line feed and their fields are separated by commas. A field that holds a comma,
a quote or a line end is written between quotes, the quotes inside it being doubled; a record that
is one empty field is written as a pair of quotes.

* `Csv.writeRecord`, `Csv.write`: the text of records;
* `Csv.Writer`: a text under way, whose records all have as many fields as the first one;
* `Csv.writeEven`: the text of such records;
* `Csv.read`: the records of a text.
-/

namespace Choropleth
namespace Csv

/-- A field that has to stand between quotes. -/
def needsQuotes (field : List Char) : Bool :=
  field.any fun c => c = ',' || c = '"' || c = '\r' || c = '\n'

/-- The characters of a field with its quotes doubled. -/
def doubleQuotes : List Char → List Char
  | [] => []
  | c :: r => if c = '"' then '"' :: '"' :: doubleQuotes r else c :: doubleQuotes r

/-- A field as it is written. -/
def writeField (field : List Char) : List Char :=
  if needsQuotes field then '"' :: doubleQuotes field ++ ['"'] else field

/-- The fields of a record with commas between them. -/
def writeFields : List (List Char) → List Char
  | [] => []
  | [f] => writeField f
  | f :: g :: r => writeField f ++ ',' :: writeFields (g :: r)

/-- A record with its line end. -/
def writeRecordChars (record : List (List Char)) : List Char :=
  (if record = [[]] then ['"', '"'] else writeFields record) ++ ['\n']

/-- A record with its line end. -/
def writeRecord (record : List String) : String :=
  String.ofList (writeRecordChars (record.map String.toList))

/-- The records one after the other. -/
def write (records : List (List String)) : String :=
  String.ofList (records.flatMap fun r => writeRecordChars (r.map String.toList))

/-! ### Records of one length -/

/-- A record has another number of fields than those before it. -/
structure Uneven where
  length : Nat
  expected : Nat
deriving DecidableEq

/-- The wording of the error. -/
def Uneven.message (e : Uneven) : String :=
  "CSV error: found record with " ++ toString e.length ++
    " fields, but the previous record has " ++ toString e.expected ++ " fields"

/-- A text under way, and the number of fields that its records have, if there is one. -/
structure Writer where
  text : String := ""
  width : Option Nat := none

namespace Writer

/-- Writes a record, which has to have as many fields as those before it. -/
def write (w : Writer) (record : List String) : Except Uneven Writer :=
  match w.width with
  | none => .ok ⟨w.text ++ writeRecord record, some record.length⟩
  | some n =>
    if record.length = n then .ok { w with text := w.text ++ writeRecord record }
    else .error ⟨record.length, n⟩

/-- Writes records one after the other, up to the first that cannot be written. -/
def writeAll (w : Writer) : List (List String) → Option Uneven × Writer
  | [] => (none, w)
  | record :: rest =>
    match w.write record with
    | .error e => (some e, w)
    | .ok w => w.writeAll rest

end Writer

/-- The records one after the other, if all of them have as many fields as the first one. -/
def writeEven (records : List (List String)) : Except Uneven String :=
  match ({} : Writer).writeAll records with
  | (some e, _) => .error e
  | (none, w) => .ok w.text

/-! ### Reading -/

/-- Where a reader stands. -/
inductive State
  /-- At the start of a field. -/
  | start
  /-- In a field without quotes. -/
  | plain
  /-- Between the quotes of a field. -/
  | inside
  /-- After a quote that may end the field or be the first of two. -/
  | closing
deriving DecidableEq

/-- Reads the rest of a text. `field` and `record` hold what has been read of the current field and
record, last first. -/
def readFrom : State → List Char → List (List Char) → List Char → List (List (List Char))
  | .start, _, [], [] => []
  | _, field, record, [] => [(field.reverse :: record).reverse]
  | .inside, field, record, c :: r =>
    if c = '"' then readFrom .closing field record r else readFrom .inside (c :: field) record r
  | state, field, record, c :: r =>
    if c = ',' then readFrom .start [] (field.reverse :: record) r
    else if c = '\n' then
      if state = .start ∧ record = [] then readFrom .start [] [] r
      else (field.reverse :: record).reverse :: readFrom .start [] [] r
    else if c = '"' ∧ state = .start then readFrom .inside [] record r
    else if c = '"' ∧ state = .closing then readFrom .inside (c :: field) record r
    else readFrom .plain (c :: field) record r

/-- The records of a text. -/
def readChars (s : List Char) : List (List (List Char)) := readFrom .start [] [] s

/-- The records of a text. -/
def read (text : String) : List (List String) :=
  (readChars text.toList).map fun record => record.map String.ofList

end Csv
end Choropleth
