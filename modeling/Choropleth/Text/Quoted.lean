import Choropleth.Text.Hidden

/-!
# Quoted texts

Messages show a text from a request between double quotes. A quote and a backslash are written
after a backslash; tab, line feed, carriage return and NUL have short forms; every other hidden
character is shown by its code point in lower-case hexadecimal digits.

* `escapeChar`: how one character is shown;
* `quoted`: the whole text between its quotes.
-/

namespace Choropleth
namespace Text

/-- The hexadecimal digits of a number, lower case and without leading zeros. -/
def hexDigits (n : Nat) : List Char := Nat.toDigits 16 n

/-- How a quoted text shows a character. -/
def escapeChar (c : Char) : List Char :=
  if c = '"' then ['\\', '"']
  else if c = '\\' then ['\\', '\\']
  else if c = '\n' then ['\\', 'n']
  else if c = '\r' then ['\\', 'r']
  else if c = '\t' then ['\\', 't']
  else if c = '\x00' then ['\\', '0']
  else if isHidden c then ['\\', 'u', '\x7b'] ++ hexDigits c.toNat ++ ['\x7d']
  else [c]

/-- The text between double quotes, its characters escaped. -/
def quoted (s : String) : String :=
  String.ofList ('"' :: s.toList.flatMap escapeChar ++ ['"'])

end Text
end Choropleth
