import Choropleth.AreaType
import Choropleth.QueryError
import Choropleth.Text.Blank
import Choropleth.Text.Split

/-!
# Selections of codes

A parameter selects areas or categories by a list of tokens with commas between them. A token is a
code or, with an ellipsis in it, a range of codes `first...last`.

* `Selection`: codes and ranges of codes;
* `tokens`: the tokens of the values of a parameter;
* `Selection.parse`: reads the values of a parameter;
* `codesOnly`: the codes of a selection that may not have ranges;
* `parseAreaTypes`: reads the values of a parameter that names area types.
-/

namespace Choropleth

/-- The codes from `first` to `last` in the order of their code points, both included. -/
structure CodeRange where
  first : String
  last : String
deriving DecidableEq

/-- A selection on one axis of a table. Without any code or range it leaves the axis open. -/
structure Selection where
  codes : List String := []
  ranges : List CodeRange := []
deriving DecidableEq

namespace Selection

/-- The selection leaves its axis open. -/
def isEmpty (s : Selection) : Bool := s.codes.isEmpty && s.ranges.isEmpty

/-- The selection has a range. -/
def hasRanges (s : Selection) : Bool := !s.ranges.isEmpty

/-- The selection of single codes. -/
def ofCodes (codes : List String) : Selection := ⟨codes, []⟩

end Selection

/-- What a token says. -/
inductive Token
  | code (c : List Char)
  | range (first last : List Char)
  | malformed (t : List Char)
deriving DecidableEq

namespace Token

/-- Reads a token: a range if it has an ellipsis, a code otherwise. -/
def ofChars (t : List Char) : Token :=
  match (Text.ellipsisPieces t).map Text.trim with
  | [_] => .code t
  | [first, last] => if first ≠ [] ∧ last ≠ [] then .range first last else .malformed t
  | _ => .malformed t

end Token

/-- The tokens of the values of a parameter: the pieces between commas without the blanks around
them, blank ones left out. -/
def tokens (values : List (List Char)) : List (List Char) :=
  ((values.flatMap (Text.pieces ',')).map Text.trim).filter fun t => t ≠ []

namespace Selection

/-- Adds tokens to a selection; the first malformed one is an error. -/
def addTokens : List (List Char) → Except QueryError Selection
  | [] => .ok {}
  | t :: r =>
    match Token.ofChars t with
    | .malformed t => .error (.malformedRange (String.ofList t))
    | .code c => (addTokens r).map fun s => { s with codes := String.ofList c :: s.codes }
    | .range first last => (addTokens r).map fun s =>
        { s with ranges := ⟨String.ofList first, String.ofList last⟩ :: s.ranges }

/-- Reads the values of a parameter. Codes and ranges keep their order and their repetitions. -/
def parse (values : List String) : Except QueryError Selection :=
  addTokens (tokens (values.map String.toList))

end Selection

/-- The codes of a selection that may not have ranges. -/
def codesOnly (s : Selection) (param : String) : Except QueryError (List String) :=
  if s.hasRanges then .error (.unsupportedRange param) else .ok s.codes

/-- Reads the codes of a parameter that takes no ranges. -/
def parseCodes (values : List String) (param : String) : Except QueryError (List String) := do
  codesOnly (← Selection.parse values) param

/-- The area types with the given names. -/
def areaTypesOfNames : List String → Except QueryError (List AreaType)
  | [] => .ok []
  | n :: r =>
    match AreaType.parse? n with
    | none => .error (.unknownAreaType n)
    | some t => (areaTypesOfNames r).map (t :: ·)

/-- Reads the values of the parameter that names area types. -/
def parseAreaTypes (values : List String) : Except QueryError (List AreaType) := do
  areaTypesOfNames (← parseCodes values "geotype")

end Choropleth
