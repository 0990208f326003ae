import Mathlib.Data.Nat.Notation
import Choropleth.Condition.Meaning
import Choropleth.Condition.Sql

/-!
# Query texts and their meaning

The text of a condition is read as a store reads it: words and signs first, then comparisons, then
`AND` before `OR`. The values are bound to the places `?` from left to right.

* `Sql.lexemes?`: the words and signs of a text;
* `Sql.Expr`, `Sql.read?`: the tree of a text;
* `Sql.Expr.truth`: the truth of a tree in a row;
* `Sql.Accepts`: the text, with values in its places, is true of a row.
-/

namespace Choropleth
namespace Sql

/-! ### Words and signs -/

/-- The words and signs of query texts. -/
inductive Lexeme
  | column (c : Column)
  | and
  | or
  | among
  | between
  | startsWith
  | place
  | opening
  | closing
  | comma
  | equal
  | atLeast
  | atMost
deriving DecidableEq

/-- The characters of names and words. -/
def isNameChar (c : Char) : Bool := c.isAlphanum || c = '_' || c = '.'

/-- The characters of comparison signs. -/
def isSignChar (c : Char) : Bool := c = '<' || c = '>' || c = '='

/-- Two characters that belong to one word or to one sign. -/
def joins (c d : Char) : Bool :=
  isNameChar c && isNameChar d || isSignChar c && isSignChar d

/-- Cuts a text into words and signs and drops the blanks between them. -/
def scan : List Char → List (List Char)
  | [] => []
  | c :: r =>
    if Text.isBlank c then scan r
    else if r.head?.any (joins c) then Text.consFirst c (scan r)
    else [c] :: scan r

/-- The columns of the joined rows. -/
def columns : List Column :=
  [.areaCode, .areaValid, .areaTypeName, .minLon, .minLat, .maxLon, .maxLat, .categoryCode,
    .categoryYear, .releaseYear, .releaseLabel]

/-- The words and signs other than columns. -/
def keywords : List (String × Lexeme) :=
  [("AND", .and), ("OR", .or), ("IN", .among), ("BETWEEN", .between),
    ("starts_with", .startsWith), ("?", .place), ("(", .opening), (")", .closing), (",", .comma),
    ("=", .equal), (">=", .atLeast), ("<=", .atMost)]

/-- The word or sign that characters stand for. -/
def lexeme? (w : List Char) : Option Lexeme :=
  match keywords.find? fun k => k.1.toList = w with
  | some k => some k.2
  | none => (columns.find? fun c => c.sql.toList = w).map .column

/-- The words and signs of a text. -/
def lexemes? (text : List Char) : Option (List Lexeme) := (scan text).mapM lexeme?

/-! ### Trees -/

/-- Comparisons joined by `AND` and `OR`. -/
inductive Expr
  | test (t : Test)
  | both (e f : Expr)
  | either (e f : Expr)
deriving DecidableEq

/-- Reads the places of a list up to the bracket that closes it. -/
def readPlaces? : List Lexeme → Option (ℕ × List Lexeme)
  | .place :: .comma :: r => (readPlaces? r).map fun p => (p.1 + 1, p.2)
  | .place :: .closing :: r => some (1, r)
  | _ => none

/-- Reads a comparison. -/
def readTest? : List Lexeme → Option (Test × List Lexeme)
  | .startsWith :: .opening :: .column c :: .comma :: .place :: .closing :: r =>
    some (.startsWith c, r)
  | .column c :: .equal :: .place :: r => some (.equals c, r)
  | .column c :: .equal :: .column d :: r => some (.same c d, r)
  | .column c :: .atLeast :: .place :: r => some (.atLeast c, r)
  | .column c :: .atMost :: .place :: r => some (.atMost c, r)
  | .column c :: .between :: .place :: .and :: .place :: r => some (.between c, r)
  | .column c :: .among :: .opening :: r => (readPlaces? r).map fun p => (.oneOf c p.1, p.2)
  | .column c :: r => some (.holds c, r)
  | _ => none

mutual

/-- Reads alternatives with `OR` between them. The number bounds the depth of the reading. -/
def readEither? : ℕ → List Lexeme → Option (Expr × List Lexeme)
  | 0, _ => none
  | n + 1, ts =>
    match readBoth? n ts with
    | some (e, .or :: r) => (readEither? n r).map fun p => (.either e p.1, p.2)
    | result => result

/-- Reads what `AND` joins; it binds tighter than `OR`. -/
def readBoth? : ℕ → List Lexeme → Option (Expr × List Lexeme)
  | 0, _ => none
  | n + 1, ts =>
    match readOperand? n ts with
    | some (e, .and :: r) => (readBoth? n r).map fun p => (.both e p.1, p.2)
    | result => result

/-- Reads a comparison or what stands in brackets. -/
def readOperand? : ℕ → List Lexeme → Option (Expr × List Lexeme)
  | 0, _ => none
  | n + 1, .opening :: r =>
    match readEither? n r with
    | some (e, .closing :: r) => some (e, r)
    | _ => none
  | _ + 1, ts => (readTest? ts).map fun p => (.test p.1, p.2)

end

/-- The tree of a text. A bracket takes three steps of the reading, any other word or sign fewer. -/
def read? (text : String) : Option Expr := do
  let ts ← lexemes? text.toList
  match readEither? (3 * ts.length + 3) ts with
  | some (e, []) => some e
  | _ => none

/-! ### Meaning -/

namespace Expr

/-- How many places a tree has. -/
def arity : Expr → ℕ
  | test t => t.arity
  | both e f => e.arity + f.arity
  | either e f => e.arity + f.arity

/-- The truth of a tree in a row, the values being bound to its places from left to right. -/
def truth (r : FactRow) : Expr → List Datum → Truth
  | test t, vs => t.truth r vs
  | both e f, vs => Truth.both (e.truth r (vs.take e.arity)) (f.truth r (vs.drop e.arity))
  | either e f, vs => Truth.either (e.truth r (vs.take e.arity)) (f.truth r (vs.drop e.arity))

end Expr

/-- The text can be read, has as many places as there are values, and is true of the row. -/
def Accepts (text : String) (values : List Datum) (r : FactRow) : Prop :=
  ∃ e, read? text = some e ∧ e.arity = values.length ∧ e.truth r values = some true

end Sql
end Choropleth
