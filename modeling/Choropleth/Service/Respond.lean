import Choropleth.Engine
import Choropleth.Exchange
import Choropleth.Json.Writer
import Choropleth.Number.Reading
import Choropleth.Request.Key
import Choropleth.Service.Cache
import Choropleth.Service.Settings
import Choropleth.Service.Target

/-!
# The service

The service answers requests for tables and for breaks over a store. Answers are cached by the keys
of their requests.

* `Response`: the answer to a request;
* `QueryError.kind`, `QueryError.status`, `QueryError.response`: how errors are answered;
* `Service`: a running service;
* `Service.respond`: answers a request.
-/

namespace Choropleth

/-- The answer to a request. -/
structure Response where
  status : Nat
  contentType : Option String
  body : String
deriving DecidableEq

/-- What the body of an error says. -/
structure Refusal where
  kind : String
  text : String
deriving DecidableEq

namespace Refusal

/-- A refusal as a JSON value. -/
def toJson (r : Refusal) : Json := .object [("kind", .string r.kind), ("error", .string r.text)]

/-- Reads a refusal. -/
def ofJson? (v : Json) : Option Refusal := do
  match ← v.record? ["kind", "error"] with
  | [kind, text] => pure ⟨← kind.text?, ← text.text?⟩
  | _ => none

end Refusal

namespace QueryError

/-- The name of the kind of an error in answers. -/
def kind : QueryError → String
  | malformedRange _ => "malformed_range"
  | unsupportedRange _ => "unsupported_range"
  | missingParams _ => "missing_params"
  | unknownAreaType _ => "invalid_geotype"
  | invalidZone _ => "invalid_spatial_filter"
  | tooLarge _ => "too_many_metrics"
  | partialContent .. => "partial_content"
  | zeroDenominator .. => "invalid_ratio"
  | clustering .. => "clustering"
  | deadlineExceeded => "deadline_exceeded"
  | store _ => "store"
  | render _ => "render"

/-- The status of the answer to a request that has failed. -/
def status : QueryError → Nat
  | tooLarge _ => 403
  | deadlineExceeded => 504
  | e => if e.isRefusal then 400 else 500

/-- The answer to a request that has failed. -/
def response (e : QueryError) : Response where
  status := e.status
  contentType := some MediaType.json.name
  body := (Refusal.toJson ⟨e.kind, e.message⟩).compact

end QueryError

/-- The answer with a body. -/
def Response.ok (body : String) (mediaType : MediaType) : Response := ⟨200, some mediaType.name, body⟩

/-- The answer where there is nothing. -/
def Response.notFound : Response := ⟨404, none, ""⟩

/-- The answer to a census year that is no number. -/
def Response.badYear (year : String) : Response :=
  ⟨404, some MediaType.plain.name, "can not parse " ++ Text.quoted year ++ " to a i32"⟩

/-- A running service. -/
structure Service where
  engine : Engine
  /-- The label of the release that is served. -/
  label : String
  cache : Cache

namespace Service

/-- Nanoseconds in a second. -/
def second : Nat := 1000000000

/-- A service with some settings. `elapsed` is the time that a query has taken at each of its
pulls, and `boundaryTest` how the database compares boundaries where the settings allow it. -/
def start (s : Settings) (elapsed : Nat → Nat) (boundaryTest : BoundaryTest) : Service where
  engine :=
    { ceiling := s.ceiling
      timer := .ofLimit (s.timeout?.map (· * second)) elapsed
      boundaries := s.boundaries
      boundaryTest }
  label := s.label
  cache := { lifetime := s.cacheSeconds * second, capacity := s.cacheCapacity }

/-- Answers a request by its key: from the cache if it can, else with a body that is computed and
then cached. Errors are not cached. -/
def respondByKey (s : Service) (now : Nat) (key : String) (mediaType : MediaType)
    (compute : Unit → Except QueryError String) : Response × Service :=
  match s.cache.get? key now with
  | (some e, cache) => (.ok e.body e.mediaType, { s with cache })
  | (none, cache) =>
    match compute () with
    | .error e => (e.response, { s with cache })
    | .ok body => (.ok body mediaType, { s with cache := cache.insert key body mediaType now })

/-- Answers a request for a table. -/
def respondTable (s : Service) (store : Store) (now : Nat) (release : Release) (params : Params) :
    Response × Service :=
  match TableRequest.ofParams release params with
  | .error e => (e.response, s)
  | .ok r => s.respondByKey now r.key .csv fun _ => s.engine.table store r >>= Crosstab.toCsv

/-- Answers a request for breaks. -/
def respondBreaks (s : Service) (store : Store) (arrangements : Arrangements) (now : Nat)
    (release : Release) (params : Params) : Response × Service :=
  match BreaksRequest.ofParams release params with
  | .error e => (e.response, s)
  | .ok r =>
    s.respondByKey now r.key .json fun _ =>
      (s.engine.classify store r arrangements).map fun b => b.toJson.compact

/-- Answers a request for a target. -/
def respondTarget (s : Service) (store : Store) (arrangements : Arrangements) (now : Nat)
    (t : Target) : Response × Service :=
  match t.endpoint? with
  | none => (.notFound, s)
  | some (endpoint, year) =>
    match Number.readInt? yearBounds.1 yearBounds.2 (Target.decodeAll year).toList with
    | none => (.badYear year, s)
    | some y =>
      match endpoint with
      | .table => s.respondTable store now ⟨y, s.label⟩ t.params
      | .breaks => s.respondBreaks store arrangements now ⟨y, s.label⟩ t.params

/-- Answers a request. Only the method `GET` leads anywhere. The maps that are filled for it are
walked in some orders. -/
def respond (s : Service) (store : Store) (arrangements : Arrangements) (now : Nat)
    (method uri : String) : Response × Service :=
  if method = "GET" then s.respondTarget store arrangements now (.ofUri uri) else (.notFound, s)

end Service
end Choropleth
