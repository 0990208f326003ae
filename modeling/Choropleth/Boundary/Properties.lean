import Choropleth.Json.Decode

/-!
# Properties of boundaries

The properties of a boundary are a JSON object. Four of its members are known by name and are texts
that may be missing or `null`; all others are kept as they are.

* `Properties`: the properties of a boundary;
* `Properties.ofMembers?`, `Properties.toJson`: reading and writing;
* `Properties.codeAndType?`: the code and the area type, if neither is missing or empty.
-/

namespace Choropleth

/-- The properties of a boundary. -/
structure Properties where
  code : Option String
  areaType : Option String
  englishName : Option String
  welshName : Option String
  /-- The other members, sorted by name at every depth. -/
  others : Json.Members

namespace Properties

/-- The names of the known members. -/
def knownNames : List String := ["geocode", "geotype", "ename", "wname"]

/-- The text of a member that may be missing or `null`, but not occur twice. -/
def optionalText? (members : Json.Members) (name : String) : Option (Option String) :=
  match Json.valuesOf name members with
  | [] => some none
  | [.null] => some none
  | [.string s] => some (some s)
  | _ => none

/-- The members that are not known by name, sorted at every depth. -/
def otherMembers (members : Json.Members) : Json.Members :=
  Json.sortMembers (Json.canonicalMembers (members.filter fun m => m.1 ∉ knownNames))

/-- Reads the members of properties. -/
def ofMembers? (members : Json.Members) : Option Properties := do
  let code ← optionalText? members "geocode"
  let areaType ← optionalText? members "geotype"
  let englishName ← optionalText? members "ename"
  let welshName ← optionalText? members "wname"
  pure { code, areaType, englishName, welshName, others := otherMembers members }

/-- Reads properties. -/
def ofJson? (v : Json) : Option Properties :=
  match v with
  | .object members => if v.isSound then ofMembers? members else none
  | _ => none

/-- The member of a text, unless it is missing. -/
def textMember (name : String) (value : Option String) : Json.Members :=
  value.toList.map fun s => (name, .string s)

/-- Properties as a JSON value: the known members first. -/
def toJson (p : Properties) : Json :=
  .object (textMember "geocode" p.code ++ textMember "geotype" p.areaType ++
    textMember "ename" p.englishName ++ textMember "wname" p.welshName ++ p.others)

/-- The text, unless it is missing or empty. -/
def filled? (value : Option String) : Option String := value.filter fun s => s ≠ ""

/-- The code and the area type, if neither is missing or empty. -/
def codeAndType? (p : Properties) : Option (String × String) := do
  pure (← filled? p.code, ← filled? p.areaType)

end Properties
end Choropleth
