import Choropleth.Keyed
import Choropleth.Number.Binary
import Choropleth.Store.Basic

/-!
# Loading stores

Every statement of a load takes effect on its own: what was stored before a failing statement stays.

* `StoreError`: why a load fails;
* `AreaRecord`: an area that is to be stored;
* `chunks`, `Places`: statements that store many observations, with the places for their values;
* `Store.ensureType`, `Store.ensureCategory`, `Store.ensureRelease`: the number of a row, which is
  added unless it is there;
* `Store.addAreas`: stores areas one after the other;
* `Store.addObservations`: stores the observations of a release, all of them or none.
-/

namespace Choropleth

/-- Why a load fails. -/
inductive StoreError
  /-- There is an area with this code already. -/
  | duplicateArea (code : String)
  /-- There is no area with this code. -/
  | unknownArea (code : String)
  /-- The store may not be changed. -/
  | readOnly
deriving DecidableEq

namespace StoreError

/-- The wording of the error. -/
def message : StoreError → String
  | duplicateArea code => "duplicate geography code " ++ code
  | unknownArea code => "Data conversion error: unknown geography code " ++ code
  | readOnly => "the store is read-only"

end StoreError

/-- An area that is to be stored. -/
structure AreaRecord where
  code : String
  areaType : AreaType
  name : Option String := none
  welshName : Option String := none
  valid : Bool := true
  envelope : Option Box := none
  centroid : Option Position := none
  boundary : Option (List UInt8) := none
deriving DecidableEq

namespace AreaRecord

/-- Gives an area an envelope; an area without centroid gets the middle of the envelope. -/
def withEnvelope (r : AreaRecord) (b : Box) : AreaRecord :=
  { r with envelope := some b, centroid := some (r.centroid.getD b.centre) }

/-- The row of an area whose type has the given number. -/
def toRow (r : AreaRecord) (typeId : Nat) : AreaRow where
  typeId
  code := r.code
  name := r.name
  welshName := r.welshName
  valid := r.valid
  envelope := r.envelope
  centroid := r.centroid
  boundary := r.boundary

end AreaRecord

/-- An observation whose area and category are known by their numbers. -/
structure Resolved where
  areaId : Nat
  categoryId : Nat
  value : Float
deriving DecidableEq

/-! ### Statements with many values -/

/-- How many observations one statement stores. -/
def chunkSize : Nat := 2000

/-- Cuts a list into chunks of a size; the last one may be smaller. -/
def chunks {α : Type} (size : Nat) : List α → List (List α)
  | [] => []
  | x :: r => (x :: r.take (size - 1)) :: chunks size (r.drop (size - 1))
termination_by xs => xs.length
decreasing_by rw [List.length_drop, List.length_cons]; omega

/-- What is bound to the places of a statement; nothing is bound to a place that is `null`. -/
abbrev Places := Array Datum

namespace Places

/-- The places of a statement with groups of four places each. -/
def unbound (groups : Nat) : Places := Array.replicate (4 * groups) .null

/-- Binds a value to a place; the first place is the one with number 1. -/
def bind (p : Places) (place : Nat) (d : Datum) : Places := p.setIfInBounds (place - 1) d

/-- Binds the observations of a release to the groups that begin at a place. -/
def bindAll (p : Places) (releaseId place : Nat) : List Resolved → Places
  | [] => p
  | e :: rest =>
    let p := p.bind place (.int e.areaId)
    let p := p.bind (place + 1) (.int e.categoryId)
    let p := p.bind (place + 2) (.int releaseId)
    let p := p.bind (place + 3) (.real e.value)
    p.bindAll releaseId (place + 4) rest

/-- The entry that a group of places stands for; the first group is the one with number 0. -/
def group? (p : Places) (group : Nat) : Option FactEntry :=
  match p[4 * group]?, p[4 * group + 1]?, p[4 * group + 2]?, p[4 * group + 3]? with
  | some (.int areaId), some (.int categoryId), some (.int releaseId), some (.real value) =>
    some ⟨areaId.toNat, categoryId.toNat, releaseId.toNat, value⟩
  | _, _, _, _ => none

end Places

/-! ### Rows -/

/-- The position of a row in a table, to whose end it is added unless it is there. -/
def placeRow {α : Type} [DecidableEq α] (row : α) (table : List α) : Nat × List α :=
  match table.findIdx? fun r => r = row with
  | some i => (i, table)
  | none => (table.length, table ++ [row])

namespace Store

/-- The number of an area type. -/
def ensureType (s : Store) (t : AreaType) : Nat × Store :=
  let (i, types) := placeRow t.name s.types
  (i, { s with types })

/-- The number of a category of a census year. -/
def ensureCategory (s : Store) (code : String) (year : Int) : Nat × Store :=
  let (i, categories) := placeRow ⟨code, year⟩ s.categories
  (i, { s with categories })

/-- The number of a release. -/
def ensureRelease (s : Store) (r : Release) : Nat × Store :=
  let (i, releases) := placeRow r s.releases
  (i, { s with releases })

/-- The number of an area type that was asked for before is kept. -/
def typeId (s : Store) (known : Keyed AreaType Nat) (t : AreaType) :
    Nat × Keyed AreaType Nat × Store :=
  match known.get? t with
  | some i => (i, known, s)
  | none =>
    let (i, s) := s.ensureType t
    (i, known.put t i, s)

/-- Adds an area, whose code has to be new. -/
def insertArea (s : Store) (row : AreaRow) : Except StoreError Unit × Store :=
  if (s.areaId? row.code).isSome then (.error (.duplicateArea row.code), s)
  else (.ok (), { s with areas := s.areas ++ [row] })

/-- Stores areas one after the other up to the first that is refused; `stored` is the number of
areas before them. The type of an area is stored first and stays even if the area is refused. -/
def addAreasFrom (stored : Nat) (known : Keyed AreaType Nat) (s : Store) :
    List AreaRecord → Except StoreError Nat × Store
  | [] => (.ok stored, s)
  | r :: rest =>
    let (typeId, known, s) := s.typeId known r.areaType
    match s.insertArea (r.toRow typeId) with
    | (.error e, s) => (.error e, s)
    | (.ok (), s) => addAreasFrom (stored + 1) known s rest

/-- Stores areas one after the other up to the first that is refused, and counts them. -/
def addAreas (s : Store) (records : List AreaRecord) : Except StoreError Nat × Store :=
  addAreasFrom 0 [] s records

/-- The numbers of all areas by their codes. -/
def areaIds (s : Store) : Keyed String Nat :=
  s.areas.zipIdx.foldl (fun ids p => ids.put p.1.code p.2) []

/-- The number of a category that was asked for before is kept. -/
def categoryId (s : Store) (year : Int) (known : Keyed String Nat) (code : String) :
    Nat × Keyed String Nat × Store :=
  match known.get? code with
  | some i => (i, known, s)
  | none =>
    let (i, s) := s.ensureCategory code year
    (i, known.put code i, s)

/-- Looks up the areas and categories of observations. The categories are stored as they are met,
up to the first observation of an unknown area. -/
def resolve (s : Store) (areas : Keyed String Nat) (year : Int) (known : Keyed String Nat) :
    List Observation → Except StoreError (List Resolved) × Store
  | [] => (.ok [], s)
  | o :: rest =>
    match areas.get? o.area with
    | none => (.error (.unknownArea o.area), s)
    | some areaId =>
      let (categoryId, known, s) := s.categoryId year known o.category
      match s.resolve areas year known rest with
      | (.error e, s) => (.error e, s)
      | (.ok entries, s) => (.ok (⟨areaId, categoryId, o.value⟩ :: entries), s)

/-- Stores what one statement has bound to its groups of places, and counts it. -/
def insertBound (s : Store) (groups : Nat) (places : Places) : Nat × Store :=
  let entries := (List.range groups).filterMap places.group?
  (entries.length, { s with facts := s.facts ++ entries })

/-- Stores observations by one statement after the other, and counts them. -/
def insertChunks (s : Store) (releaseId : Nat) : List (List Resolved) → Nat × Store
  | [] => (0, s)
  | chunk :: rest =>
    let places := (Places.unbound chunk.length).bindAll releaseId 1 chunk
    let (stored, s) := s.insertBound chunk.length places
    let (others, s) := s.insertChunks releaseId rest
    (stored + others, s)

/-- Stores the observations of a release and counts them. An observation of an unknown area keeps
all of them out; the release and the categories met before it stay. -/
def addObservations (s : Store) (r : Release) (os : List Observation) :
    Except StoreError Nat × Store :=
  if os.isEmpty then (.ok 0, s)
  else
    let (releaseId, s) := s.ensureRelease r
    match s.resolve s.areaIds r.year [] os with
    | (.error e, s) => (.error e, s)
    | (.ok resolved, s) =>
      let (stored, s) := s.insertChunks releaseId (chunks chunkSize resolved)
      (.ok stored, s)

end Store
end Choropleth
