import Choropleth.Keyed

/-!
# The response cache

A cache keeps the bodies of responses by the keys of their requests for a limited time, and up to a
limited number. Times are numbers of nanoseconds.

* `MediaType`: what a body is;
* `Cache`: the cached bodies with the times at which they were inserted;
* `Cache.get?`: the body of a key, which is dropped if its time has passed;
* `Cache.insert`: adds a body; when there are too many the oldest go.
-/

namespace Choropleth

/-- What a body is. -/
inductive MediaType
  | csv
  | json
  | plain
deriving DecidableEq

namespace MediaType

/-- The name of a media type in the header of a response. -/
def name : MediaType → String
  | csv => "text/csv; charset=utf-8"
  | json => "application/json"
  | plain => "text/plain; charset=utf-8"

end MediaType

/-- A body with the time at which it was inserted. -/
structure CacheEntry where
  body : String
  mediaType : MediaType
  inserted : Nat
deriving DecidableEq

/-- Bodies by the keys of their requests. Without any lifetime or capacity there are none. -/
structure Cache where
  lifetime : Nat
  capacity : Nat
  entries : Keyed String CacheEntry := []
deriving DecidableEq

namespace Cache

/-- The cache keeps bodies at all. -/
def isEnabled (c : Cache) : Bool := 0 < c.lifetime && 0 < c.capacity

/-- The number of bodies, those included whose time has passed unnoticed. -/
def size (c : Cache) : Nat := c.entries.length

/-- The entries without those of a key. -/
def dropKey (key : String) (entries : Keyed String CacheEntry) : Keyed String CacheEntry :=
  entries.filter fun e => e.1 ≠ key

/-- The body of a key at a time. A body whose time has passed is dropped. -/
def get? (c : Cache) (key : String) (now : Nat) : Option CacheEntry × Cache :=
  if c.isEnabled then
    match c.entries.get? key with
    | none => (none, c)
    | some e =>
      if now - e.inserted < c.lifetime then (some e, c)
      else (none, { c with entries := dropKey key c.entries })
  else (none, c)

/-- The key of the oldest entry; of several that are equally old it is the first. -/
def oldest? : Keyed String CacheEntry → Option (String × CacheEntry)
  | [] => none
  | e :: r =>
    match oldest? r with
    | none => some e
    | some o => if o.2.inserted < e.2.inserted then some o else some e

/-- Drops the oldest entry. -/
def dropOldest (entries : Keyed String CacheEntry) : Keyed String CacheEntry :=
  match oldest? entries with
  | none => entries
  | some o => dropKey o.1 entries

/-- Drops the oldest entry again and again until there are not too many; `rounds` bounds how
often. -/
def shrink (capacity : Nat) : Nat → Keyed String CacheEntry → Keyed String CacheEntry
  | 0, entries => entries
  | rounds + 1, entries =>
    if capacity < entries.length then shrink capacity rounds (dropOldest entries) else entries

/-- Adds the body of a key at a time. -/
def insert (c : Cache) (key body : String) (mediaType : MediaType) (now : Nat) : Cache :=
  if c.isEnabled then
    let entries := c.entries.put key ⟨body, mediaType, now⟩
    { c with entries := shrink c.capacity entries.length entries }
  else c

end Cache
end Choropleth
