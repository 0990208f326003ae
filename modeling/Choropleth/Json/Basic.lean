/-!
# JSON values

* `Json`: the values, with integers and binary64 numbers apart and the members of an object in the
  order they are written, repetitions included;
* `Json.lookup?`: the value of a name, the last one if the name is repeated;
* `Json.canonical`: every object sorted by name, with the last value of each name;
* `Json.depth`: how deeply arrays and objects are nested.
-/

namespace Choropleth

/-- A JSON value. A number that is too large for binary64 is kept as an infinity. -/
inductive Json
  | null
  | bool (value : Bool)
  | int (value : Int)
  | float (value : Float)
  | string (value : String)
  | array (items : List Json)
  | object (members : List (String × Json))

namespace Json

/-- The members of an object. -/
abbrev Members := List (String × Json)

/-- The value of the last member with the given name. -/
def lookup? (name : String) : Members → Option Json
  | [] => none
  | (n, v) :: r => match lookup? name r with
    | some w => some w
    | none => if n = name then some v else none

/-- The values of all members with the given name. -/
def valuesOf (name : String) (members : Members) : List Json :=
  members.filterMap fun (n, v) => if n = name then some v else none

/-- Puts a member at its place among members sorted by name, over an older one of the same name. -/
def insertMember (name : String) (value : Json) : Members → Members
  | [] => [(name, value)]
  | (n, v) :: r =>
    if name = n then (name, value) :: r
    else if name < n then (name, value) :: (n, v) :: r
    else (n, v) :: insertMember name value r

/-- The members sorted by name; of several members with one name the last is kept. -/
def sortMembers (members : Members) : Members :=
  members.foldl (fun sorted m => insertMember m.1 m.2 sorted) []

mutual

/-- The value with every object in it sorted by name, the last value of each name being kept. -/
def canonical : Json → Json
  | .array items => .array (canonicalItems items)
  | .object members => .object (sortMembers (canonicalMembers members))
  | v => v

/-- `canonical` on the items of an array. -/
def canonicalItems : List Json → List Json
  | [] => []
  | v :: r => canonical v :: canonicalItems r

/-- `canonical` on the values of members. -/
def canonicalMembers : Members → Members
  | [] => []
  | (n, v) :: r => (n, canonical v) :: canonicalMembers r

end

mutual

/-- How deeply arrays and objects are nested. -/
def depth : Json → Nat
  | .array items => depthItems items + 1
  | .object members => depthMembers members + 1
  | _ => 0

/-- The greatest depth among the items of an array. -/
def depthItems : List Json → Nat
  | [] => 0
  | v :: r => max (depth v) (depthItems r)

/-- The greatest depth among the values of members. -/
def depthMembers : Members → Nat
  | [] => 0
  | (_, v) :: r => max (depth v) (depthMembers r)

end

mutual

/-- Every number in the value is finite. -/
def isFinite : Json → Bool
  | .float x => x.isFinite
  | .array items => isFiniteItems items
  | .object members => isFiniteMembers members
  | _ => true

/-- `isFinite` on the items of an array. -/
def isFiniteItems : List Json → Bool
  | [] => true
  | v :: r => isFinite v && isFiniteItems r

/-- `isFinite` on the values of members. -/
def isFiniteMembers : Members → Bool
  | [] => true
  | (_, v) :: r => isFinite v && isFiniteMembers r

end

/-- The depth up to which values are read. -/
def maxDepth : Nat := 127

/-- A value that can be taken over whole: its numbers are finite and it is not too deep. -/
def isSound (v : Json) : Bool := v.isFinite && v.depth ≤ maxDepth

end Json
end Choropleth
