import Choropleth.Files.Path
import Choropleth.Keyed
import Choropleth.Store.Basic

/-!
# File trees

* `Tree`: directories and files by their places, and the directory from which paths start;
* `Tree.locate`: the place that a path leads to;
* `Tree.isThere`, `Tree.read`, `Tree.files`: what a tree holds;
* `Tree.createDirectories`, `Tree.write`, `Tree.move`: how it changes.
-/

namespace Choropleth

/-- Why a file operation fails. -/
inductive FileFault
  | missing
  | notADirectory
  | isADirectory
  | badName
  | notText
deriving DecidableEq

/-- What a file holds. -/
inductive Content
  | text (s : String)
  | store (s : Store)
deriving DecidableEq

/-- A directory or a file. -/
inductive Entry
  | directory
  | file (content : Content)
deriving DecidableEq

/-- The names that lead from the root to an entry. The root has no name. -/
abbrev Place := List String

/-- Directories and files by their places, and the directory from which paths start. -/
structure Tree where
  entries : Keyed Place Entry
  home : Place
deriving DecidableEq

/-- Where a path leads to: into a directory and, unless it leads to the directory itself, to a name
in it. -/
structure Spot where
  directory : Place
  name : Option String
deriving DecidableEq

/-- The place that a spot stands for. -/
def Spot.place (s : Spot) : Place := s.directory ++ s.name.toList

namespace Tree

/-- The tree with an empty directory, from which paths start. -/
def fresh : Tree := ⟨[(["work"], .directory)], ["work"]⟩

/-- What is at a place. -/
def entryAt? (t : Tree) (place : Place) : Option Entry :=
  if place = [] then some .directory else t.entries.get? place

/-- Puts an entry at a place. -/
def put (t : Tree) (place : Place) (e : Entry) : Tree := { t with entries := t.entries.put place e }

/-- Takes the entry at a place away. -/
def erase (t : Tree) (place : Place) : Tree :=
  { t with entries := t.entries.filter fun p => p.1 ≠ place }

/-- The greatest length of a name in bytes. -/
def maxName : Nat := 255

/-- Goes from a directory one part of a path further. -/
def enter (t : Tree) (directory : Place) (part : String) : Except FileFault Place :=
  if Path.isHere part then .ok directory
  else if part = ".." then .ok directory.dropLast
  else if maxName < part.utf8ByteSize then .error .badName
  else
    match t.entryAt? (directory ++ [part]) with
    | some .directory => .ok (directory ++ [part])
    | some (.file _) => .error .notADirectory
    | none => .error .missing

/-- Goes along the parts of a path. -/
def walk (t : Tree) (directory : Place) : List String → Except FileFault Place
  | [] => .ok directory
  | part :: r =>
    match t.enter directory part with
    | .error e => .error e
    | .ok d => t.walk d r

/-- Where a path starts. -/
def start (t : Tree) (path : String) : Place := if Path.isAbsolute path then [] else t.home

/-- The path has a character that no name may have. -/
def hasBadCharacter (path : String) : Bool := path.toList.any fun c => c.toNat = 0

/-- The spot of the last part of a path in the directory that the parts before it lead to. -/
def spot (t : Tree) (directory : Place) (last : String) : Except FileFault Spot :=
  if Path.isHere last ∨ last = ".." then
    (t.enter directory last).map fun d => ⟨d, none⟩
  else if maxName < last.utf8ByteSize then .error .badName
  else .ok ⟨directory, some last⟩

/-- Where a path leads to. All parts but the last have to be directories. -/
def locate (t : Tree) (path : String) : Except FileFault Spot :=
  if path = "" then .error .missing
  else if hasBadCharacter path then .error .badName
  else
    match t.walk (t.start path) (Path.parts path).dropLast with
    | .error e => .error e
    | .ok d => t.spot d ((Path.parts path).getLast?.getD "")

/-- What is at the end of a path. -/
def find (t : Tree) (path : String) : Except FileFault Entry :=
  match t.locate path with
  | .error e => .error e
  | .ok s =>
    match t.entryAt? s.place with
    | none => .error .missing
    | some e => .ok e

/-- There is something at the end of a path. -/
def isThere (t : Tree) (path : String) : Bool := (t.find path).isOk

/-- What a file holds. -/
def read (t : Tree) (path : String) : Except FileFault Content :=
  match t.find path with
  | .error e => .error e
  | .ok .directory => .error .isADirectory
  | .ok (.file c) => .ok c

/-- The text of a file. -/
def readText (t : Tree) (path : String) : Except FileFault String :=
  match t.read path with
  | .error e => .error e
  | .ok (.text s) => .ok s
  | .ok (.store _) => .error .notText

/-- The place of a file that may be written at the end of a path. -/
def fileSpot (t : Tree) (path : String) : Except FileFault Place :=
  match t.locate path with
  | .error e => .error e
  | .ok s =>
    if s.name.isNone ∨ t.entryAt? s.place = some .directory then .error .isADirectory
    else .ok s.place

/-- Writes a file, over an older one if there is one. -/
def write (t : Tree) (path : String) (c : Content) : Except FileFault Tree :=
  (t.fileSpot path).map fun place => t.put place (.file c)

/-- Moves a file, over an older one if there is one. -/
def move (t : Tree) (source target : String) : Except FileFault Tree :=
  match t.fileSpot source, t.read source with
  | .error e, _ => .error e
  | _, .error e => .error e
  | .ok place, .ok c =>
    (t.fileSpot target).map fun goal => (t.erase place).put goal (.file c)

/-- Goes along the parts of a path and creates the directories that are missing. -/
def createFrom (t : Tree) (directory : Place) : List String → Except FileFault Unit × Tree
  | [] => (.ok (), t)
  | part :: r =>
    match t.enter directory part with
    | .ok d => t.createFrom d r
    | .error .missing =>
      (t.put (directory ++ [part]) .directory).createFrom (directory ++ [part]) r
    | .error e => (.error e, t)

/-- Creates the directories of a path that are missing. -/
def createDirectories (t : Tree) (path : String) : Except FileFault Unit × Tree :=
  if hasBadCharacter path then (.error .badName, t)
  else t.createFrom (t.start path) (Path.parts path)

/-- Creates the directories of a path unless there is something at its end. -/
def ensureDirectory (t : Tree) (path : String) : Except FileFault Unit × Tree :=
  if path = "" ∨ t.isThere path then (.ok (), t) else t.createDirectories path

/-- Creates the directory that a path lies in unless it is there. -/
def ensureParent (t : Tree) (path : String) : Except FileFault Unit × Tree :=
  match Path.parent? path with
  | none => (.ok (), t)
  | some p => t.ensureDirectory p

/-- The path from one place to another below it. -/
def relative? (home place : Place) : Option String :=
  if home.isPrefixOf place then some (Text.joinStrings "/" (place.drop home.length)) else none

/-- The paths of all files below the directory from which paths start, in ascending order. -/
def files (t : Tree) : List String :=
  let paths := t.entries.filterMap fun (place, e) =>
    match e with
    | .file _ => relative? t.home place
    | .directory => none
  paths.mergeSort fun s t => s ≤ t

end Tree
end Choropleth
