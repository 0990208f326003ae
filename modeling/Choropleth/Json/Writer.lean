import Choropleth.Json.Basic
import Choropleth.Number.Notation

/-!
# Writing JSON texts

* `Json.compact`: a value without any blanks;
* `Json.pretty`: a value on several lines, indented by four spaces.
-/

namespace Choropleth
namespace Json

/-- A hexadecimal digit, lower case. -/
def hexDigit (n : Nat) : Char := if n < 10 then Char.ofNat (48 + n) else Char.ofNat (87 + n)

/-- How a string shows a character: quotes, backslashes and control characters are escaped. -/
def escapeChar (c : Char) : List Char :=
  if c = '"' then ['\\', '"']
  else if c = '\\' then ['\\', '\\']
  else if c = '\x08' then ['\\', 'b']
  else if c = '\x0c' then ['\\', 'f']
  else if c = '\n' then ['\\', 'n']
  else if c = '\r' then ['\\', 'r']
  else if c = '\t' then ['\\', 't']
  else if c.toNat < 0x20 then ['\\', 'u', '0', '0', hexDigit (c.toNat / 16), hexDigit (c.toNat % 16)]
  else [c]

/-- A string between its quotes. -/
def writeString (s : String) : List Char := '"' :: s.toList.flatMap escapeChar ++ ['"']

/-- A value that is neither an array nor an object. -/
def writeScalar : Json → List Char
  | .null => "null".toList
  | .bool true => "true".toList
  | .bool false => "false".toList
  | .int i => (toString i).toList
  | .float x => (jsonNotation.write x).toList
  | .string s => writeString s
  | .array _ => []
  | .object _ => []

mutual

/-- A value without blanks. -/
def compactChars : Json → List Char
  | .array items => '[' :: compactItems items ++ [']']
  | .object members => '\x7b' :: compactMembers members ++ ['\x7d']
  | v => writeScalar v

/-- The items of an array with commas between them. -/
def compactItems : List Json → List Char
  | [] => []
  | [v] => compactChars v
  | v :: w :: r => compactChars v ++ ',' :: compactItems (w :: r)

/-- The members of an object with commas between them. -/
def compactMembers : Members → List Char
  | [] => []
  | [(n, v)] => writeString n ++ ':' :: compactChars v
  | (n, v) :: m :: r => writeString n ++ ':' :: compactChars v ++ ',' :: compactMembers (m :: r)

end

/-- A value without any blanks. -/
def compact (v : Json) : String := String.ofList (compactChars v)

/-- A line break and the indentation of a depth. -/
def newline (level : Nat) : List Char := '\n' :: List.replicate (4 * level) ' '

mutual

/-- A value on several lines; what is inside it is indented one step more than `level`. -/
def prettyChars (level : Nat) : Json → List Char
  | .array [] => ['[', ']']
  | .array items => '[' :: prettyItems (level + 1) items ++ newline level ++ [']']
  | .object [] => ['\x7b', '\x7d']
  | .object members => '\x7b' :: prettyMembers (level + 1) members ++ newline level ++ ['\x7d']
  | v => writeScalar v

/-- The items of an array, each on lines of its own. -/
def prettyItems (level : Nat) : List Json → List Char
  | [] => []
  | [v] => newline level ++ prettyChars level v
  | v :: w :: r => newline level ++ prettyChars level v ++ ',' :: prettyItems level (w :: r)

/-- The members of an object, each on lines of its own. -/
def prettyMembers (level : Nat) : Members → List Char
  | [] => []
  | [(n, v)] => newline level ++ writeString n ++ ':' :: ' ' :: prettyChars level v
  | (n, v) :: m :: r =>
    newline level ++ writeString n ++ ':' :: ' ' :: prettyChars level v ++
      ',' :: prettyMembers level (m :: r)

end

/-- A value on several lines, indented by four spaces. -/
def pretty (v : Json) : String := String.ofList (prettyChars 0 v)

end Json
end Choropleth
