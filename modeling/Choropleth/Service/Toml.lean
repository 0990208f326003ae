import Choropleth.Json.Reader

/-!
# Flat TOML documents

Every line of a flat document is blank, a comment, or a key with a value, which is a string, an
integer or a truth value. Other values, dotted keys and tables are outside of this form.

* `Toml.Value`: the values;
* `Toml.readFlat?`: the keys and values of a document in their order.
-/

namespace Choropleth
namespace Toml

/-- The value of a key. -/
inductive Value
  | string (s : String)
  | int (i : Int)
  | bool (b : Bool)
deriving DecidableEq

/-- A blank within a line. -/
def isGap (c : Char) : Bool := c = ' ' || c = '\t'

/-- A text after the blanks it begins with. -/
def skipGaps (s : List Char) : List Char := s.dropWhile isGap

/-- A character that may stand in comments and, unless it has a meaning there, in strings. -/
def isPlain (c : Char) : Bool := c = '\t' || (0x20 ≤ c.toNat && c.toNat ≠ 0x7F)

/-- A character of a key without quotes. -/
def isKeyChar (c : Char) : Bool := c.isAlphanum || c = '_' || c = '-'

/-- A character of an integer or a truth value. -/
def isWordChar (c : Char) : Bool := c.isAlphanum || c = '_' || c = '-' || c = '+' || c = '.'

/-- What follows a line break, if the text begins with one. -/
def lineBreak? : List Char → Option (List Char)
  | '\n' :: r => some r
  | '\r' :: '\n' :: r => some r
  | _ => none

/-- The value of hexadecimal digits. -/
def hexValue? (ds : List Char) : Option Nat :=
  ds.foldl (fun n? d => do pure (16 * (← n?) + (← Json.Reader.hexValue? d))) (some 0)

/-- The character of a code in hexadecimal digits. -/
def codeChar? (ds : List Char) : Option Char := do
  let n ← hexValue? ds
  if n.isValidChar then some (Char.ofNat n) else none

/-- The character of an escape after its backslash, and what follows it. -/
def escape? : List Char → Option (Char × List Char)
  | 'b' :: r => some ('\x08', r)
  | 't' :: r => some ('\t', r)
  | 'n' :: r => some ('\n', r)
  | 'f' :: r => some ('\x0c', r)
  | 'r' :: r => some ('\r', r)
  | 'e' :: r => some ('\x1b', r)
  | '"' :: r => some ('"', r)
  | '\\' :: r => some ('\\', r)
  | 'x' :: r => if r.length < 2 then none else (codeChar? (r.take 2)).map fun c => (c, r.drop 2)
  | 'u' :: r => if r.length < 4 then none else (codeChar? (r.take 4)).map fun c => (c, r.drop 4)
  | 'U' :: r => if r.length < 8 then none else (codeChar? (r.take 8)).map fun c => (c, r.drop 8)
  | _ => none

/-- A text after the blanks and line breaks it begins with. -/
def skipBreaks : List Char → List Char
  | '\r' :: '\n' :: r => skipBreaks r
  | c :: r => if isGap c || c = '\n' then skipBreaks r else c :: r
  | [] => []

/-- What follows a line break, before which there may be blanks, and all further blanks and line
breaks. -/
def continuation? (s : List Char) : Option (List Char) :=
  (lineBreak? (skipGaps s)).map skipBreaks

/-- The rest of a string on one line between `quote`s. Escapes are read if `escapes` says so;
`seen` holds the characters so far, last first. -/
def lineString? (quote : Char) (escapes : Bool) : Nat → List Char → List Char →
    Option (String × List Char)
  | 0, _, _ => none
  | _ + 1, _, [] => none
  | fuel + 1, seen, c :: r =>
    if c = quote then some (String.ofList seen.reverse, r)
    else if c = '\\' && escapes then
      match escape? r with
      | none => none
      | some (c, r) => lineString? quote escapes fuel (c :: seen) r
    else if isPlain c then lineString? quote escapes fuel (c :: seen) r
    else none

/-- The rest of a string that may run over several lines. It ends with three `quote`s, before which
there may be up to two more that belong to it. -/
def blockString? (quote : Char) (escapes : Bool) : Nat → List Char → List Char →
    Option (String × List Char)
  | 0, _, _ => none
  | _ + 1, _, [] => none
  | fuel + 1, seen, c :: r =>
    if c = quote then
      let run := (c :: r).takeWhile fun d => d = quote
      let rest := (c :: r).dropWhile fun d => d = quote
      if run.length < 3 then blockString? quote escapes fuel (run ++ seen) rest
      else if run.length ≤ 5 then
        some (String.ofList (List.replicate (run.length - 3) quote ++ seen).reverse, rest)
      else none
    else if c = '\\' && escapes then
      match escape? r with
      | some (c, r) => blockString? quote escapes fuel (c :: seen) r
      | none =>
        match continuation? r with
        | some r => blockString? quote escapes fuel seen r
        | none => none
    else
      match lineBreak? (c :: r) with
      | some r => blockString? quote escapes fuel ('\n' :: seen) r
      | none => if isPlain c then blockString? quote escapes fuel (c :: seen) r else none

/-- A string on one line at the front of a text, and what follows it. -/
def shortString? : List Char → Option (String × List Char)
  | '"' :: r => lineString? '"' true (r.length + 1) [] r
  | '\'' :: r => lineString? '\'' false (r.length + 1) [] r
  | _ => none

/-- A string at the front of a text, and what follows it. A line break right after three quotes
does not belong to the string. -/
def string? : List Char → Option (String × List Char)
  | '"' :: '"' :: '"' :: r =>
    let r := (lineBreak? r).getD r
    blockString? '"' true (r.length + 1) [] r
  | '\'' :: '\'' :: '\'' :: r =>
    let r := (lineBreak? r).getD r
    blockString? '\'' false (r.length + 1) [] r
  | s => shortString? s

/-- The digits of an integer in which single underscores may stand between digits. -/
def withoutUnderscores? : List Char → Option (List Char)
  | [] => none
  | [c] => if c = '_' then none else some [c]
  | c :: '_' :: r =>
    if c = '_' then none else (withoutUnderscores? r).map (c :: ·)
  | c :: r => if c = '_' then none else (withoutUnderscores? r).map (c :: ·)

/-- The value of a digit. -/
def digitValue? (base : Nat) (c : Char) : Option Nat := do
  let n ← Json.Reader.hexValue? c
  if n < base then some n else none

/-- The value of digits, among which there may be underscores. -/
def digitsValue? (base : Nat) (s : List Char) : Option Nat := do
  let ds ← withoutUnderscores? s
  ds.foldl (fun n? d => do pure (base * (← n?) + (← digitValue? base d))) (some 0)

/-- The value of a decimal number, which has no zero in front. -/
def decimal? (s : List Char) : Option Nat :=
  match s with
  | '0' :: _ :: _ => none
  | _ => digitsValue? 10 s

/-- The value of an integer. -/
def int? : List Char → Option Int
  | '0' :: 'x' :: r => (digitsValue? 16 r).map Int.ofNat
  | '0' :: 'o' :: r => (digitsValue? 8 r).map Int.ofNat
  | '0' :: 'b' :: r => (digitsValue? 2 r).map Int.ofNat
  | '+' :: r => (decimal? r).map Int.ofNat
  | '-' :: r => (decimal? r).map fun n => -(n : Int)
  | s => (decimal? s).map Int.ofNat

/-- The value of a word. -/
def wordValue? (w : List Char) : Option Value :=
  if w = "true".toList then some (.bool true)
  else if w = "false".toList then some (.bool false)
  else (int? w).map .int

/-- A value at the front of a text, and what follows it. -/
def value? (s : List Char) : Option (Value × List Char) :=
  match s with
  | [] => none
  | c :: _ =>
    if c = '"' ∨ c = '\'' then (string? s).map fun (t, r) => (.string t, r)
    else (wordValue? (s.takeWhile isWordChar)).map fun v => (v, s.dropWhile isWordChar)

/-- A key at the front of a text, and what follows it. -/
def key? (s : List Char) : Option (String × List Char) :=
  match s with
  | [] => none
  | c :: _ =>
    if c = '"' ∨ c = '\'' then shortString? s
    else if (s.takeWhile isKeyChar).isEmpty then none
    else some (String.ofList (s.takeWhile isKeyChar), s.dropWhile isKeyChar)

/-- What follows the end of a line, before which there may be blanks and a comment. -/
def lineEnd? (s : List Char) : Option (List Char) :=
  let s := skipGaps s
  let s := if s.head? = some '#' then s.dropWhile isPlain else s
  if s.isEmpty then some [] else lineBreak? s

/-- A key with its value at the front of a text, and what follows its line. -/
def entry? (s : List Char) : Option ((String × Value) × List Char) := do
  let (key, s) ← key? s
  match skipGaps s with
  | '=' :: s =>
    let (value, s) ← value? (skipGaps s)
    let s ← lineEnd? s
    pure ((key, value), s)
  | _ => none

/-- The keys and values of the lines of a text. -/
def lines? : Nat → List Char → Option (List (String × Value))
  | 0, _ => none
  | fuel + 1, s =>
    let s := skipGaps s
    match s with
    | [] => some []
    | _ =>
      match lineEnd? s with
      | some r => lines? fuel r
      | none => do
        let (e, r) ← entry? s
        let es ← lines? fuel r
        pure (e :: es)

/-- The text after a byte order mark. -/
def skipMark : List Char → List Char
  | '\uFEFF' :: r => r
  | s => s

/-- The keys and values of a flat document in their order. -/
def readFlat? (text : String) : Option (List (String × Value)) :=
  lines? (text.length + 1) (skipMark text.toList)

end Toml
end Choropleth
