import Choropleth.Number.Reading
import Choropleth.Service.Toml
import Choropleth.Text.Blank
import Choropleth.Text.Quoted

/-!
# Settings of the service

Every setting has a standard value, over which a settings file and then the environment take
precedence.

* `Settings`: the settings with their standard values;
* `SettingName`, `Settings.set?`: the settings by name;
* `Settings.ofToml`: reads a settings file;
* `Settings.applyEnvironment`: applies the variables of an environment;
* `Settings.load`: both in turn.
-/

namespace Choropleth

/-- The settings of the service. -/
structure Settings where
  /-- The path of the store; none stands for the standard path. -/
  storePath : Option String := none
  address : String := "127.0.0.1"
  port : Nat := 8080
  /-- The number of connections to the store. -/
  poolSize : Nat := 4
  /-- The greatest number of observations that a table is made of; zero stands for no limit. -/
  ceiling : Nat := 0
  /-- The label of the release that is served. -/
  label : String := "2.2"
  /-- How many seconds a response is cached. -/
  cacheSeconds : Nat := 300
  cacheCapacity : Nat := 1024
  /-- How many seconds a query may take; zero stands for no limit. -/
  timeoutSeconds : Nat := 30
  /-- Boundaries may be asked about. -/
  boundaries : Bool := false
deriving DecidableEq

/-- Why settings cannot be read. -/
inductive SettingsError
  /-- The settings file is malformed, or sets something that is no setting. -/
  | inFile
  /-- A variable has a value that its setting cannot have. -/
  | inEnvironment (name value : String)
deriving DecidableEq

namespace SettingsError

/-- The wording of the error. -/
def message : SettingsError → String
  | inFile => "Invalid config file"
  | inEnvironment name value => "Invalid value " ++ Text.quoted value ++ " for " ++ name

end SettingsError

/-- The settings by name. -/
inductive SettingName
  | storePath
  | address
  | port
  | poolSize
  | ceiling
  | label
  | cacheSeconds
  | cacheCapacity
  | timeoutSeconds
  | boundaries
deriving DecidableEq

namespace SettingName

/-- All settings, in the order in which variables are applied. -/
def all : List SettingName :=
  [storePath, address, port, poolSize, ceiling, label, cacheSeconds, cacheCapacity, timeoutSeconds,
    boundaries]

/-- The key of a setting in a settings file. -/
def key : SettingName → String
  | storePath => "db_path"
  | address => "bind_addr"
  | port => "port"
  | poolSize => "pool_size"
  | ceiling => "max_metrics"
  | label => "ver_string"
  | cacheSeconds => "cache_ttl_secs"
  | cacheCapacity => "cache_max_entries"
  | timeoutSeconds => "request_timeout_secs"
  | boundaries => "enable_spatial"

/-- The environment variable of a setting. -/
def variableName : SettingName → String
  | storePath => "GEODATA_DB_PATH"
  | address => "BIND_ADDR"
  | port => "PORT"
  | poolSize => "POOL_SIZE"
  | ceiling => "MAX_METRICS"
  | label => "VER_STRING"
  | cacheSeconds => "CACHE_TTL_SECS"
  | cacheCapacity => "CACHE_MAX_ENTRIES"
  | timeoutSeconds => "REQUEST_TIMEOUT_SECS"
  | boundaries => "ENABLE_SPATIAL"

/-- The setting with a key. -/
def ofKey? (key : String) : Option SettingName := all.find? fun n => n.key = key

end SettingName

/-- What the value of a setting may be. -/
inductive SettingKind
  | text
  | count (greatest : Nat)
  | flag
deriving DecidableEq

/-- What the value of a setting may be. -/
def SettingName.kind : SettingName → SettingKind
  | .storePath => .text
  | .address => .text
  | .port => .count 65535
  | .poolSize => .count Number.maxCount
  | .ceiling => .count Number.maxCount
  | .label => .text
  | .cacheSeconds => .count Number.maxCount
  | .cacheCapacity => .count Number.maxCount
  | .timeoutSeconds => .count Number.maxCount
  | .boundaries => .flag

namespace Settings

/-- Sets a setting that is a text. -/
def setText (s : Settings) (value : String) : SettingName → Settings
  | .storePath => { s with storePath := some value }
  | .address => { s with address := value }
  | .label => { s with label := value }
  | _ => s

/-- Sets a setting that is a number. -/
def setCount (s : Settings) (value : Nat) : SettingName → Settings
  | .port => { s with port := value }
  | .poolSize => { s with poolSize := value }
  | .ceiling => { s with ceiling := value }
  | .cacheSeconds => { s with cacheSeconds := value }
  | .cacheCapacity => { s with cacheCapacity := value }
  | .timeoutSeconds => { s with timeoutSeconds := value }
  | _ => s

/-- Sets a setting to a value, if it may have it. -/
def set? (s : Settings) (name : SettingName) (value : Toml.Value) : Option Settings :=
  match name.kind, value with
  | .text, .string t => some (s.setText t name)
  | .count greatest, .int i =>
    if 0 ≤ i ∧ i ≤ greatest then some (s.setCount i.toNat name) else none
  | .flag, .bool b => some { s with boundaries := b }
  | _, _ => none

/-- Sets the settings of the entries of a settings file, in which no key may occur twice. -/
def applyEntries? (s : Settings) (seen : List String) : List (String × Toml.Value) →
    Option Settings
  | [] => some s
  | (key, value) :: rest => do
    if key ∈ seen then none
    let name ← SettingName.ofKey? key
    let s ← s.set? name value
    s.applyEntries? (key :: seen) rest

/-- The standard settings changed by a settings file. -/
def ofToml (text : String) : Except SettingsError Settings :=
  match (Toml.readFlat? text).bind (applyEntries? {} []) with
  | none => .error .inFile
  | some s => .ok s

/-- The value of a truth value in a variable. -/
def flagOfText? (s : String) : Option Bool :=
  if s = "true" then some true else if s = "false" then some false else none

/-- The value that a variable gives to a setting. Blanks around numbers and truth values do not
count. -/
def valueOfVariable? (kind : SettingKind) (raw : String) : Option Toml.Value :=
  match kind with
  | .text => some (.string raw)
  | .count greatest =>
    (Number.readNat? greatest (Text.trim raw.toList)).map fun n => .int n
  | .flag => (flagOfText? (Text.trimString raw)).map .bool

/-- Applies the variable of a setting, if the environment has it. -/
def applyVariable (lookup : String → Option String) (s : Settings) (name : SettingName) :
    Except SettingsError Settings :=
  match lookup name.variableName with
  | none => .ok s
  | some raw =>
    match (valueOfVariable? name.kind raw).bind (s.set? name) with
    | none => .error (.inEnvironment name.variableName raw)
    | some s => .ok s

/-- Applies the variables of an environment. -/
def applyEnvironment (lookup : String → Option String) (s : Settings) :
    Except SettingsError Settings :=
  SettingName.all.foldlM (applyVariable lookup) s

/-- The settings of a settings file, if there is one, and of an environment. -/
def load (file : Option String) (lookup : String → Option String) :
    Except SettingsError Settings := do
  let s ← match file with
    | none => pure {}
    | some text => ofToml text
  applyEnvironment lookup s

/-- How many seconds a query may take, if there is a limit. -/
def timeout? (s : Settings) : Option Nat :=
  if s.timeoutSeconds = 0 then none else some s.timeoutSeconds

end Settings
end Choropleth
