import Mathlib.Data.List.Induction
import Choropleth.Proofs.Breaks.FreshScratch
import Choropleth.Proofs.Service.Cache
import Choropleth.Service.Respond

/-!
# Answers with and without a cache

A service with a cache answers like one without, except that it may give the answer that an earlier
request with the same key got.

* `Arrival`, `Service.answer`, `Service.after`: requests one after the other;
* `requestKey?`: the key of what a request asks for;
* `Service.answer_cases`: the answer is settled by the request, or it is the answer by its key;
* `Response.Alike`, `Service.answer_alike`: maps that are walked in other orders;
* `Service.answer_with_cache_cases`: what one request does to a cache;
* `Service.Justified`: every cached body is the answer to a request with its key;
* `cached_answers_justified`: the answers of a service with a cache.
-/

namespace Choropleth

/-- A request, when it arrives, and the orders in which the maps that are filled for it are
walked. -/
structure Arrival where
  method : String
  uri : String
  now : ℕ
  arrangements : Arrangements

/-- The key of what a request asks for, if it is a well-formed request for a table or for breaks. -/
def requestKey? (label : String) (a : Arrival) : Option String :=
  if a.method = "GET" then do
    let (endpoint, year) ← (Target.ofUri a.uri).endpoint?
    let year ← Number.readInt? yearBounds.1 yearBounds.2 (Target.decodeAll year).toList
    match endpoint with
    | .table =>
      let r ← (TableRequest.ofParams ⟨year, label⟩ (Target.ofUri a.uri).params).toOption
      pure r.key
    | .breaks =>
      let r ← (BreaksRequest.ofParams ⟨year, label⟩ (Target.ofUri a.uri).params).toOption
      pure r.key
  else none

/-- The answer to a computation. -/
def Response.ofComputed (mediaType : MediaType) : Except QueryError String → Response
  | .error e => e.response
  | .ok body => .ok body mediaType

/-- The answers are the same but for the orders in which maps are walked: the same up to the area
that an error names, or up to the signs of extremes that are zero. -/
inductive Response.Alike : Response → Response → Prop
  | refl (r : Response) : Alike r r
  | error {e f : QueryError} (h : e.SameFault f) : Alike e.response f.response
  | breaks {b c : Breaks} (h : b.AgreesWith c) :
    Alike (.ok b.toJson.compact .json) (.ok c.toJson.compact .json)

theorem Response.Alike.ofComputed {x y : Except QueryError Breaks}
    (h : Outcome.Alike QueryError.SameFault Breaks.AgreesWith x y) :
    (Response.ofComputed .json (x.map fun b => b.toJson.compact)).Alike
      (.ofComputed .json (y.map fun b => b.toJson.compact)) := by
  cases h with
  | ok h => exact .breaks h
  | error h => exact .error h

/-- Breaks are alike in whatever orders the maps are walked. -/
theorem Engine.classify_alike (e : Engine) (s : Store) (r : BreaksRequest) (x y : Arrangements) :
    Outcome.Alike QueryError.SameFault Breaks.AgreesWith (e.classify s r x) (e.classify s r y) :=
  (classifyArranged_alike (e.source s).alike_refl r { arrangements := x } { arrangements := y }
    rfl).1

theorem QueryError.status_ne_ok (e : QueryError) : e.response.status ≠ 200 := by
  show e.status ≠ 200
  unfold status
  split
  · decide
  · decide
  · split <;> decide

namespace Service

/-- The answer to a request, and the service after it. -/
def answer (s : Service) (store : Store) (a : Arrival) : Response × Service :=
  s.respond store a.arrangements a.now a.method a.uri

/-- The service after requests one after the other. -/
def after (s : Service) (store : Store) (as : List Arrival) : Service :=
  as.foldl (fun s a => (s.answer store a).2) s

theorem after_concat (s : Service) (store : Store) (as : List Arrival) (a : Arrival) :
    s.after store (as ++ [a]) = ((s.after store as).answer store a).2 := by
  rw [after, List.foldl_append]
  rfl

/-- The service with another cache. -/
def withCache (s : Service) (c : Cache) : Service := { s with cache := c }

@[simp] theorem cache_withCache (s : Service) (c : Cache) : (s.withCache c).cache = c := rfl

@[simp] theorem withCache_withCache (s : Service) (c d : Cache) :
    (s.withCache c).withCache d = s.withCache d := rfl

/-- **One request.** Whatever is cached, the answer is settled by the request and the cache stays as
it is, or the answer is given by the key of the request. -/
theorem answer_cases (s : Service) (store : Store) (a : Arrival) :
    (∃ r : Response, r.status ≠ 200 ∧
      ∀ c, (s.withCache c).answer store a = (r, s.withCache c)) ∨
      ∃ key mediaType compute, requestKey? s.label a = some key ∧
        ∀ c, (s.withCache c).answer store a =
          (s.withCache c).respondByKey a.now key mediaType compute := by
  unfold answer respond requestKey?
  split
  · unfold respondTarget
    rcases (Target.ofUri a.uri).endpoint? with _ | ⟨endpoint, year⟩
    · exact .inl ⟨.notFound, by decide, fun c => rfl⟩
    simp only [Option.bind_eq_bind, Option.bind_some]
    rcases Number.readInt? yearBounds.1 yearBounds.2 (Target.decodeAll year).toList with _ | y
    · exact .inl ⟨.badYear year, by simp [Response.badYear], fun c => rfl⟩
    simp only [Option.bind_some]
    cases endpoint with
    | table =>
      unfold respondTable
      rcases h : TableRequest.ofParams ⟨y, s.label⟩ (Target.ofUri a.uri).params with e | r
      · exact .inl ⟨e.response, e.status_ne_ok, fun c => by simp [withCache, h]⟩
      · exact .inr ⟨r.key, .csv, _, rfl, fun c => by simp [withCache, h]; rfl⟩
    | breaks =>
      unfold respondBreaks
      rcases h : BreaksRequest.ofParams ⟨y, s.label⟩ (Target.ofUri a.uri).params with e | r
      · exact .inl ⟨e.response, e.status_ne_ok, fun c => by simp [withCache, h]⟩
      · exact .inr ⟨r.key, .json, _, rfl, fun c => by simp [withCache, h]; rfl⟩
  · exact .inl ⟨.notFound, by decide, fun c => rfl⟩

/-! ### Without a cache -/

section

variable {s : Service} (hs : s.cache.isEnabled = false)

include hs

/-- A service that keeps no bodies computes every answer. -/
theorem respondByKey_of_disabled (now : ℕ) (key : String) (mediaType : MediaType)
    (compute : Unit → Except QueryError String) :
    s.respondByKey now key mediaType compute = (.ofComputed mediaType (compute ()), s) := by
  have hget : s.cache.get? key now = (none, s.cache) := by simp [Cache.get?, hs]
  rw [respondByKey, hget]
  dsimp only
  rcases compute () with e | body
  · rfl
  · simp [Cache.insert, hs, Response.ofComputed]

theorem answer_of_disabled (store : Store) (a : Arrival) : (s.answer store a).2 = s := by
  obtain ⟨r, -, h⟩ | ⟨key, mediaType, compute, -, h⟩ := s.answer_cases store a
  · exact congrArg Prod.snd (h s.cache)
  · refine (congrArg Prod.snd (h s.cache)).trans ?_
    exact congrArg Prod.snd (respondByKey_of_disabled hs a.now key mediaType compute)

/-- In other orders the answer is alike. -/
theorem answer_alike (store : Store) (a : Arrival) (arrangements : Arrangements) :
    (s.answer store a).1.Alike (s.answer store { a with arrangements }).1 := by
  unfold answer respond
  dsimp only
  split
  · unfold respondTarget
    rcases (Target.ofUri a.uri).endpoint? with _ | ⟨endpoint, year⟩
    · exact .refl _
    dsimp only
    rcases Number.readInt? yearBounds.1 yearBounds.2 (Target.decodeAll year).toList with _ | y
    · exact .refl _
    cases endpoint with
    | table => exact .refl _
    | breaks =>
      unfold respondBreaks
      dsimp only
      rcases BreaksRequest.ofParams ⟨y, s.label⟩ (Target.ofUri a.uri).params with e | r
      · exact .refl _
      · simp only [respondByKey_of_disabled hs]
        exact .ofComputed (s.engine.classify_alike store r a.arrangements arrangements)
  · exact .refl _

theorem after_of_disabled (store : Store) (as : List Arrival) : s.after store as = s := by
  induction as using List.reverseRecOn with
  | nil => rfl
  | append_singleton as a ih => rw [after_concat, ih, answer_of_disabled hs]

end

/-! ### With a cache -/

/-- At most the entry of the key of a request has been dropped, and only if its time has passed. -/
def DropsExpired (label : String) (a : Arrival) (c d : Cache) : Prop :=
  d = c ∨ ∃ key e, requestKey? label a = some key ∧ c.entries.get? key = some e ∧
    c.lifetime ≤ a.now - e.inserted ∧ d = { c with entries := Cache.dropKey key c.entries }

theorem DropsExpired.sublist {label : String} {a : Arrival} {c d : Cache}
    (h : DropsExpired label a c d) : d.entries.Sublist c.entries ∧ d.capacity = c.capacity := by
  obtain rfl | ⟨key, e, -, -, -, rfl⟩ := h
  · exact ⟨.refl _, rfl⟩
  · exact ⟨Cache.dropKey_sublist key c.entries, rfl⟩

/-- **One request with a cache.** It fails as without a cache; or it succeeds as without a cache,
and the body is cached; or it gets a cached body. -/
theorem answer_with_cache_cases (s : Service) (store : Store) (a : Arrival) {plain : Cache}
    (hplain : plain.isEnabled = false) :
    let p := ((s.withCache plain).answer store a).1
    (∃ d, p.status ≠ 200 ∧ DropsExpired s.label a s.cache d ∧
      s.answer store a = (p, s.withCache d)) ∨
      (∃ key body mediaType d, requestKey? s.label a = some key ∧ p = .ok body mediaType ∧
        DropsExpired s.label a s.cache d ∧
          s.answer store a = (p, s.withCache (d.insert key body mediaType a.now))) ∨
        ∃ key e, requestKey? s.label a = some key ∧ s.cache.entries.get? key = some e ∧
          s.answer store a = (.ok e.body e.mediaType, s) := by
  intro p
  obtain ⟨r, hstatus, hanswer⟩ | ⟨key, mediaType, compute, hkey, hanswer⟩ := s.answer_cases store a
  · have hp : p = r := congrArg Prod.fst (hanswer plain)
    rw [hp]
    exact .inl ⟨s.cache, hstatus, .inl rfl, hanswer s.cache⟩
  · have hp : p = .ofComputed mediaType (compute ()) := by
      rw [show p = _ from congrArg Prod.fst (hanswer plain), respondByKey_of_disabled hplain]
    have hs : s.answer store a = s.respondByKey a.now key mediaType compute := hanswer s.cache
    -- a miss computes the answer, and what it fails with is not cached
    have hmiss {d : Cache} (hget : s.cache.get? key a.now = (none, d))
        (hdrops : DropsExpired s.label a s.cache d) :
        (∃ d, p.status ≠ 200 ∧ DropsExpired s.label a s.cache d ∧
          s.answer store a = (p, s.withCache d)) ∨
          ∃ key body mediaType d, requestKey? s.label a = some key ∧ p = .ok body mediaType ∧
            DropsExpired s.label a s.cache d ∧
              s.answer store a = (p, s.withCache (d.insert key body mediaType a.now)) := by
      rw [hs, respondByKey, hget, hp]
      dsimp only
      rcases compute () with e | body
      · exact .inl ⟨d, e.status_ne_ok, hdrops, rfl⟩
      · exact .inr ⟨key, body, mediaType, d, hkey, rfl, hdrops, rfl⟩
    obtain ⟨e, -, he, -, hget⟩ | ⟨-, hget⟩ | ⟨e, -, he, hold, hget⟩ := s.cache.get?_cases key a.now
    · refine .inr (.inr ⟨key, e, hkey, he, ?_⟩)
      rw [hs, respondByKey, hget]
    · exact or_assoc.1 (.inl (hmiss hget (.inl rfl)))
    · exact or_assoc.1 (.inl (hmiss hget (.inr ⟨key, e, hkey, he, hold, rfl⟩)))

/-! ### Cached bodies are answers -/

/-- Every cached body is the answer that a service without a cache gives to one of some requests,
with the key of this request; and there are no more bodies than the capacity. -/
structure Justified (plain : Service) (store : Store) (as : List Arrival) (c : Cache) : Prop where
  answers : ∀ p ∈ c.entries, ∃ a ∈ as, requestKey? plain.label a = some p.1 ∧
    (plain.answer store a).1 = .ok p.2.body p.2.mediaType
  size : c.size ≤ c.capacity

section

variable {plain : Service} {store : Store} {as : List Arrival} {a : Arrival} {c d : Cache}

theorem Justified.drops {label : String} (h : plain.Justified store as c)
    (hd : DropsExpired label a c d) : plain.Justified store (as ++ [a]) d where
  answers p hp := by
    obtain ⟨b, hb, hrest⟩ := h.answers p (hd.sublist.1.subset hp)
    exact ⟨b, List.mem_append_left [a] hb, hrest⟩
  size := hd.sublist.2 ▸ hd.sublist.1.length_le.trans h.size

theorem Justified.insert (h : plain.Justified store as c) (ha : a ∈ as) {key body : String}
    {mediaType : MediaType} (hkey : requestKey? plain.label a = some key)
    (hanswer : (plain.answer store a).1 = .ok body mediaType) (now : ℕ) :
    plain.Justified store as (c.insert key body mediaType now) where
  answers := by
    obtain ⟨-, hinsert⟩ | ⟨-, hinsert⟩ := c.insert_cases key body mediaType now
    · rw [hinsert]
      exact h.answers
    · rw [hinsert]
      intro p hp
      rcases Keyed.mem_put ((Cache.shrink_sublist _ _ _).subset hp) with rfl | hp
      · exact ⟨a, ha, hkey, hanswer⟩
      · exact h.answers p hp
  size := by
    rw [(c.insert_limits key body mediaType now).2]
    exact Cache.size_insert_le h.size key body mediaType now

end

/-- **Requests one after the other.** A service that begins with an empty cache changes nothing but
its cache, and every cached body is the answer to one of the requests. -/
theorem after_spec (s : Service) (store : Store) (as : List Arrival) {plain : Cache}
    (hplain : plain.isEnabled = false) (hempty : s.cache.entries = []) :
    ∃ c, s.after store as = s.withCache c ∧ c.capacity = s.cache.capacity ∧
      (s.withCache plain).Justified store as c := by
  induction as using List.reverseRecOn with
  | nil =>
    refine ⟨s.cache, rfl, rfl, ?_, ?_⟩
    · rw [hempty]
      exact nofun
    · rw [Cache.size, hempty]
      exact Nat.zero_le _
  | append_singleton as a ih =>
    obtain ⟨c, hc, hcapacity, hjustified⟩ := ih
    rw [after_concat, hc]
    obtain ⟨d, -, hdrops, hanswer⟩ | ⟨key, body, mediaType, d, hkey, hp, hdrops, hanswer⟩ |
      ⟨key, e, -, -, hanswer⟩ := (s.withCache c).answer_with_cache_cases store a hplain
    · rw [hanswer]
      exact ⟨d, rfl, hdrops.sublist.2.trans hcapacity, hjustified.drops hdrops⟩
    · rw [hanswer]
      refine ⟨_, rfl, ((d.insert_limits _ _ _ _).2.trans hdrops.sublist.2).trans hcapacity, ?_⟩
      exact (hjustified.drops hdrops).insert (by simp) hkey hp a.now
    · rw [hanswer]
      exact ⟨c, rfl, hcapacity, hjustified.drops (.inl rfl : DropsExpired s.label a c c)⟩

end Service

/-- **A service with a cache answers like one without**, up to answers to earlier requests with the
same key. Whatever the settings, the test of boundaries and the requests before: an answer other than
a success is the one without a cache, and it leaves the cache as it is, except that an entry of the
same key whose time has passed is dropped; a success is the answer without a cache to this request or
to an earlier one with the same key. There are never more bodies in the cache than its capacity. The
maps that are filled for a request are walked in the same orders by both services; in other orders
an answer without a cache is the same up to the area that an error names and the signs of extremes
that are zero. -/
theorem cached_answers_justified (settings : Settings) (elapsed : ℕ → ℕ)
    (boundaryTest : BoundaryTest) (store : Store) (earlier : List Arrival) (a : Arrival) :
    let s := (Service.start settings elapsed boundaryTest).after store earlier
    let plain := Service.start { settings with cacheSeconds := 0 } elapsed boundaryTest
    let r := s.answer store a
    let p := (plain.after store earlier).answer store a
    (r.1.status ≠ 200 →
      r.1 = p.1 ∧ Service.DropsExpired settings.label a s.cache r.2.cache) ∧
      (r.1.status = 200 → r.1 = p.1 ∨ ∃ before b between key, earlier = before ++ b :: between ∧
        requestKey? settings.label a = some key ∧ requestKey? settings.label b = some key ∧
          r.1 = ((plain.after store before).answer store b).1) ∧
        s.cache.size ≤ settings.cacheCapacity ∧ r.2.cache.size ≤ settings.cacheCapacity ∧
        ∀ (before : List Arrival) (b : Arrival) (arrangements : Arrangements),
          ((plain.after store before).answer store b).1.Alike
            ((plain.after store before).answer store { b with arrangements }).1 := by
  intro s plain r p
  have hplain : plain.cache.isEnabled = false := by
    simp [plain, Service.start, Cache.isEnabled]
  obtain ⟨c, hc, hcapacity, hjustified⟩ :=
    (Service.start settings elapsed boundaryTest).after_spec store earlier hplain rfl
  have hs : s = (Service.start settings elapsed boundaryTest).withCache c := hc
  have hcapacity : c.capacity = settings.cacheCapacity := hcapacity
  have hp : p.1 = (plain.answer store a).1 := by
    rw [show p = (plain.after store earlier).answer store a from rfl,
      Service.after_of_disabled hplain]
  have hr : r = ((Service.start settings elapsed boundaryTest).withCache c).answer store a := by
    rw [← hs]
  rw [hp, hr, hs]
  have hsize : c.size ≤ settings.cacheCapacity := hcapacity ▸ hjustified.size
  have halike (before : List Arrival) (b : Arrival) (arrangements : Arrangements) :
      ((plain.after store before).answer store b).1.Alike
        ((plain.after store before).answer store { b with arrangements }).1 := by
    rw [Service.after_of_disabled hplain]
    exact Service.answer_alike hplain store b arrangements
  obtain ⟨d, hstatus, hdrops, hanswer⟩ | ⟨key, body, mediaType, d, hkey, hok, hdrops, hanswer⟩ |
    ⟨key, e, hkey, he, hanswer⟩ :=
      ((Service.start settings elapsed boundaryTest).withCache c).answer_with_cache_cases store a
        hplain
  · rw [hanswer]
    exact ⟨fun _ => ⟨rfl, hdrops⟩, fun h200 => absurd h200 hstatus, hsize,
      hdrops.sublist.1.length_le.trans hsize, halike⟩
  · rw [hanswer]
    refine ⟨fun hfailed => absurd (congrArg Response.status hok) hfailed, fun _ => .inl rfl, hsize,
      ?_, halike⟩
    have hfit : d.size ≤ d.capacity := (hjustified.drops hdrops).size
    have hlimit : d.capacity = settings.cacheCapacity := hdrops.sublist.2.trans hcapacity
    exact hlimit ▸ Cache.size_insert_le hfit key body mediaType a.now
  · rw [hanswer]
    refine ⟨fun hfailed => absurd rfl hfailed, fun _ => .inr ?_, hsize, hsize, halike⟩
    obtain ⟨b, hb, hkeyb, hanswerb⟩ := hjustified.answers _ (Keyed.mem_of_get? he)
    obtain ⟨before, between, rfl⟩ := List.append_of_mem hb
    refine ⟨before, b, between, key, rfl, hkey, hkeyb, ?_⟩
    rw [Service.after_of_disabled hplain]
    exact hanswerb.symm

end Choropleth
