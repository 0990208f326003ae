import Choropleth.Files.Tree
import Choropleth.Store.Load

/-!
# Where stores are kept

A store is kept in memory or in a file. Every connection to it sees what any other has stored.

* `Host`: the stores in memory, and the files;
* `Host.openFile`, `Host.openReadOnly`, `Host.openMemory`: connections to stores;
* `Host.addAreas`, `Host.addObservations` and the functions before them: loading through a
  connection.
-/

namespace Choropleth

/-- The stores in memory, and the files. -/
structure Host where
  files : Tree
  memory : List Store := []
deriving DecidableEq

/-- Where a store is kept. -/
inductive StorePlace
  | memory (number : Nat)
  | file (place : Place)
deriving DecidableEq

/-- A connection to a store. -/
structure Connection where
  place : StorePlace
  writable : Bool
deriving DecidableEq

/-- Why a store cannot be opened. -/
inductive OpenFault
  /-- The directory for it cannot be created. -/
  | directory (fault : FileFault)
  /-- There is no file, or the file is no store. -/
  | notAStore
deriving DecidableEq

namespace Host

/-- The store of a connection. -/
def store (h : Host) (c : Connection) : Store :=
  match c.place with
  | .memory n => (h.memory[n]?).getD {}
  | .file place =>
    match h.files.entryAt? place with
    | some (.file (.store s)) => s
    | _ => {}

/-- Puts a store in the place of the one of a connection. -/
def put (h : Host) (c : Connection) (s : Store) : Host :=
  match c.place with
  | .memory n => { h with memory := h.memory.set n s }
  | .file place => { h with files := h.files.put place (.file (.store s)) }

/-- Opens a new store in memory. -/
def openMemory (h : Host) : Connection × Host :=
  (⟨.memory h.memory.length, true⟩, { h with memory := h.memory ++ [{}] })

/-- The path stands for a new store in memory. -/
def isMemoryPath (path : String) : Bool := path = "" || path = ":memory:"

/-- Opens the store in a file. A file that is missing or empty becomes an empty store. -/
def openFile (h : Host) (path : String) : Except OpenFault Connection × Host :=
  match h.files.ensureParent path with
  | (.error e, files) => (.error (.directory e), { h with files })
  | (.ok (), files) =>
    let h := { h with files }
    if isMemoryPath path then
      let (c, h) := h.openMemory
      (.ok c, h)
    else
      match files.fileSpot path with
      | .error _ => (.error .notAStore, h)
      | .ok place =>
        let c : Connection := ⟨.file place, true⟩
        match files.entryAt? place with
        | some (.file (.store _)) => (.ok c, h)
        | some (.file (.text s)) =>
          if s = "" then (.ok c, h.put c {}) else (.error .notAStore, h)
        | some .directory => (.error .notAStore, h)
        | none => (.ok c, h.put c {})

/-- Opens the store in a file for reading. -/
def openReadOnly (h : Host) (path : String) : Except OpenFault Connection :=
  match h.files.fileSpot path with
  | .error _ => .error .notAStore
  | .ok place =>
    match h.files.entryAt? place with
    | some (.file (.store _)) => .ok ⟨.file place, false⟩
    | _ => .error .notAStore

/-- Opens several connections to the store in a file for reading, one at least. -/
def openPool (h : Host) (path : String) (size : Nat) : Except OpenFault (List Connection) :=
  (h.openReadOnly path).map fun c => List.replicate (max size 1) c

/-- Changes the store of a connection, unless the connection is for reading only. -/
def change {α : Type} (h : Host) (c : Connection) (f : Store → Except StoreError α × Store) :
    Except StoreError α × Host :=
  if c.writable then
    let (result, s) := f (h.store c)
    (result, h.put c s)
  else (.error .readOnly, h)

/-- The number of an area type. -/
def ensureType (h : Host) (c : Connection) (t : AreaType) : Except StoreError Nat × Host :=
  h.change c fun s => let (i, s) := s.ensureType t; (.ok i, s)

/-- The number of a category. -/
def ensureCategory (h : Host) (c : Connection) (code : String) (year : Int) :
    Except StoreError Nat × Host :=
  h.change c fun s => let (i, s) := s.ensureCategory code year; (.ok i, s)

/-- The number of a release. -/
def ensureRelease (h : Host) (c : Connection) (r : Release) : Except StoreError Nat × Host :=
  h.change c fun s => let (i, s) := s.ensureRelease r; (.ok i, s)

/-- Makes sure that the tables of a store are there, which they always are. -/
def ensureTables (h : Host) (c : Connection) : Except StoreError Unit × Host :=
  h.change c fun s => (.ok (), s)

/-- Stores areas. Storing none changes nothing and never fails. -/
def addAreas (h : Host) (c : Connection) (records : List AreaRecord) :
    Except StoreError Nat × Host :=
  if records.isEmpty then (.ok 0, h) else h.change c fun s => s.addAreas records

/-- Stores the observations of a release. Storing none changes nothing and never fails. -/
def addObservations (h : Host) (c : Connection) (r : Release) (os : List Observation) :
    Except StoreError Nat × Host :=
  if os.isEmpty then (.ok 0, h) else h.change c fun s => s.addObservations r os

end Host
end Choropleth
