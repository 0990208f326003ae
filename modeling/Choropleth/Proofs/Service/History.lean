import Mathlib.Data.Finset.Card
import Choropleth.Proofs.Service.Cache

/-!
# What a cache answers after a history

What a cache finds is given by the insertions before: a key has the body that was inserted last for
it, as long as the time of this insertion has not passed and fewer other keys than the capacity were
inserted last after it. Entries that were dropped on reading, and entries whose time has passed
unnoticed, make no difference.

* `CacheCall`, `CacheCall.runAll`: calls of a cache one after the other;
* `CacheCall.latest?`, `CacheCall.laterKeys`: the last insertion for a key, and the keys whose last
  insertion came later than a time;
* `Cache.Mirrors`, `Cache.Reflects`: what the entries of a cache have to do with the history;
* `cache_answers_iff`: what a cache answers.
-/

namespace Choropleth

/-- What a cache is asked, and when. -/
inductive CacheCall
  /-- For the body of a key. -/
  | get (key : String) (now : ℕ)
  /-- To keep the body of a key. -/
  | insert (key body : String) (mediaType : MediaType) (now : ℕ)

namespace CacheCall

/-- The time of a call. -/
def time : CacheCall → ℕ
  | get _ now => now
  | insert _ _ _ now => now

/-- The key of an insertion with its entry. -/
def inserted? : CacheCall → Option (String × CacheEntry)
  | get _ _ => none
  | insert key body mediaType now => some (key, ⟨body, mediaType, now⟩)

/-- The cache after a call. -/
def run (c : Cache) : CacheCall → Cache
  | get key now => (c.get? key now).2
  | insert key body mediaType now => c.insert key body mediaType now

/-- The cache after calls one after the other. -/
def runAll (c : Cache) (calls : List CacheCall) : Cache := calls.foldl run c

/-- The insertions among calls, the last one first. -/
def insertions (calls : List CacheCall) : Keyed String CacheEntry :=
  (calls.filterMap inserted?).reverse

/-- The entry that was inserted last for a key. -/
def latest? (calls : List CacheCall) (key : String) : Option CacheEntry :=
  (insertions calls).get? key

/-- The other keys whose last insertion came later than a time. -/
def laterKeys (calls : List CacheCall) (key : String) (time : ℕ) : Finset String :=
  ((insertions calls).map Prod.fst).toFinset.filter fun k =>
    k ≠ key ∧ (latest? calls k).any fun e => time < e.inserted

/-- Times do not decrease from call to call, and they increase from insertion to insertion. -/
def Timely (calls : List CacheCall) : Prop :=
  (calls.map time).Pairwise (· ≤ ·) ∧
    ((calls.filterMap inserted?).map fun p => p.2.inserted).Pairwise (· < ·)

/-! ### Histories call by call -/

theorem runAll_concat (c : Cache) (calls : List CacheCall) (call : CacheCall) :
    runAll c (calls ++ [call]) = run (runAll c calls) call := by
  rw [runAll, List.foldl_append]
  rfl

theorem latest?_concat_get (calls : List CacheCall) (key : String) (now : ℕ) :
    latest? (calls ++ [get key now]) = latest? calls := by
  funext k
  simp [latest?, insertions, List.filterMap_cons, inserted?]

theorem latest?_concat_insert (calls : List CacheCall) (key body : String) (mediaType : MediaType)
    (now : ℕ) (k : String) :
    latest? (calls ++ [insert key body mediaType now]) k =
      if key = k then some ⟨body, mediaType, now⟩ else latest? calls k := by
  simp [latest?, insertions, inserted?, Keyed.get?]

theorem inserted_of_latest? {calls : List CacheCall} {key : String} {e : CacheEntry}
    (h : latest? calls key = some e) : (key, e) ∈ calls.filterMap inserted? :=
  List.mem_reverse.1 (Keyed.mem_of_get? h)

theorem mem_laterKeys {calls : List CacheCall} {key k : String} {time : ℕ} :
    k ∈ laterKeys calls key time ↔
      k ≠ key ∧ ∃ e, latest? calls k = some e ∧ time < e.inserted := by
  rw [laterKeys, Finset.mem_filter, Option.any_eq_true]
  simp only [decide_eq_true_eq]
  refine ⟨And.right, fun h => ⟨?_, h⟩⟩
  obtain ⟨-, e, he, -⟩ := h
  exact List.mem_toFinset.2 (List.mem_map.2 ⟨(k, e), Keyed.mem_of_get? he, rfl⟩)

/-- The keys that come later than an insertion are no fewer after a call. -/
theorem laterKeys_subset_concat {calls : List CacheCall} {call : CacheCall} {key : String}
    {time : ℕ} (h : ∀ p, inserted? call = some p → time < p.2.inserted ∧ p.1 ≠ key) :
    laterKeys calls key time ⊆ laterKeys (calls ++ [call]) key time := by
  intro k hk
  obtain ⟨hne, e, he, hlt⟩ := mem_laterKeys.1 hk
  refine mem_laterKeys.2 ⟨hne, ?_⟩
  cases call with
  | get other now => exact ⟨e, by rw [latest?_concat_get, he], hlt⟩
  | insert other body mediaType now =>
    rw [latest?_concat_insert]
    split
    · exact ⟨_, rfl, (h _ rfl).1⟩
    · exact ⟨e, he, hlt⟩

theorem timely_concat {calls : List CacheCall} {call : CacheCall} :
    Timely (calls ++ [call]) ↔ Timely calls ∧ (∀ c ∈ calls, c.time ≤ call.time) ∧
      ∀ p, inserted? call = some p → ∀ q ∈ calls.filterMap inserted?,
        q.2.inserted < p.2.inserted := by
  have hinsert : ((calls ++ [call]).filterMap inserted?).map (fun p => p.2.inserted) =
      (calls.filterMap inserted?).map (fun p => p.2.inserted) ++
        (inserted? call).toList.map fun p => p.2.inserted := by
    rw [List.filterMap_append, List.map_append]
    cases h : inserted? call <;> simp [h]
  rw [Timely, Timely, hinsert, List.map_append, List.pairwise_append, List.pairwise_append]
  simp only [List.mem_map, Option.mem_toList, List.map_cons, List.map_nil,
    List.pairwise_singleton, List.mem_singleton, forall_exists_index, and_imp, forall_eq,
    forall_apply_eq_imp_iff₂, true_and]
  have hsingle : ((inserted? call).toList.map fun p => p.2.inserted).Pairwise (· < ·) := by
    cases inserted? call <;> simp
  grind

/-- Entries that were inserted last for different keys have different times. -/
theorem Timely.key_eq {calls : List CacheCall} (h : Timely calls) {k k' : String}
    {e e' : CacheEntry} (hk : latest? calls k = some e) (hk' : latest? calls k' = some e')
    (ht : e.inserted = e'.inserted) : k = k' := by
  have hnodup : ((calls.filterMap inserted?).map fun p => p.2.inserted).Nodup :=
    h.2.imp fun hlt => hlt.ne
  exact congrArg Prod.fst (List.inj_on_of_nodup_map hnodup (inserted_of_latest? hk)
    (inserted_of_latest? hk') ht)

end CacheCall

namespace Cache

open CacheCall

/-! ### What the entries have to do with the history -/

/-- The entries of a cache in view of the calls before, by a time. What is found for a key was
inserted last for it. What was inserted last for a key is held, unless its time has passed or there
are too many later keys; and as long as it is held so are all later ones, unless their time has
passed. -/
structure Mirrors (c : Cache) (calls : List CacheCall) (now : ℕ) : Prop where
  nodup : (c.entries.map Prod.fst).Nodup
  latest : ∀ {k e}, c.entries.get? k = some e → latest? calls k = some e
  held : ∀ {k e}, latest? calls k = some e → c.entries.get? k = some e ∨
    c.lifetime ≤ now - e.inserted ∨ c.capacity ≤ (laterKeys calls k e.inserted).card
  later : ∀ {k e k' e'}, c.entries.get? k = some e → latest? calls k' = some e' →
    e.inserted < e'.inserted → c.entries.get? k' = some e' ∨ c.lifetime ≤ now - e'.inserted

/-- The entries are within the capacity, and there are none in a cache that keeps none. -/
structure Reflects (c : Cache) (calls : List CacheCall) (now : ℕ) : Prop
    extends c.Mirrors calls now where
  size : c.size ≤ c.capacity
  disabled : c.isEnabled = false → c.entries = []

theorem reflects_nil (lifetime capacity : ℕ) :
    ({ lifetime, capacity } : Cache).Reflects [] 0 :=
  ⟨⟨.nil, nofun, nofun, nofun⟩, Nat.zero_le _, fun _ => rfl⟩

section

variable {c : Cache} {calls : List CacheCall} {now : ℕ}

/-- Time passes. -/
theorem Mirrors.mono (h : c.Mirrors calls now) {now' : ℕ} (hle : now ≤ now') :
    c.Mirrors calls now' where
  nodup := h.nodup
  latest := h.latest
  held hk := (h.held hk).imp_right (Or.imp_left fun hold => by omega)
  later hk hk' hlt := (h.later hk hk' hlt).imp_right fun hold => by omega

/-- A history goes on without an insertion. -/
theorem Mirrors.concat_get (h : c.Mirrors calls now) (key : String) (time : ℕ) :
    c.Mirrors (calls ++ [CacheCall.get key time]) now where
  nodup := h.nodup
  latest hk := by rw [latest?_concat_get, h.latest hk]
  held hk := by
    rw [latest?_concat_get] at hk
    refine (h.held hk).imp_right (Or.imp_right fun hmany => hmany.trans ?_)
    exact Finset.card_le_card (laterKeys_subset_concat fun p hp => by cases hp)
  later hk hk' := by
    rw [latest?_concat_get] at hk'
    exact h.later hk hk'

/-- The entry of a key may be dropped if its time has passed, and also if there are too many later
keys and nothing older is held. -/
theorem Mirrors.dropKey (h : c.Mirrors calls now) {key : String} {e : CacheEntry}
    (he : c.entries.get? key = some e)
    (hgone : c.lifetime ≤ now - e.inserted ∨ c.capacity ≤ (laterKeys calls key e.inserted).card)
    (holder : ∀ {k e'}, c.entries.get? k = some e' → e'.inserted < e.inserted →
      c.lifetime ≤ now - e.inserted) :
    { c with entries := Cache.dropKey key c.entries }.Mirrors calls now where
  nodup := ((dropKey_sublist key c.entries).map Prod.fst).nodup h.nodup
  latest hk := by
    rw [get?_dropKey] at hk
    split at hk
    · cases hk
    · exact h.latest hk
  held hk := by
    rw [get?_dropKey]
    split
    · next hkey =>
      -- what was inserted last for the key is what is dropped
      rw [hkey, h.latest he] at hk
      obtain rfl := Option.some.inj hk
      exact .inr (hkey ▸ hgone)
    · exact h.held hk
  later hk hk' hlt := by
    rw [get?_dropKey] at hk ⊢
    split at hk
    · cases hk
    split
    · next hkey =>
      rw [hkey, h.latest he] at hk'
      obtain rfl := Option.some.inj hk'
      exact .inr (holder hk hlt)
    · exact h.later hk hk' hlt

theorem Reflects.get (h : c.Reflects calls now) (key : String) :
    (c.get? key now).2.Reflects (calls ++ [CacheCall.get key now]) now := by
  have hsame : c.Reflects (calls ++ [CacheCall.get key now]) now :=
    ⟨h.toMirrors.concat_get key now, h.size, h.disabled⟩
  obtain ⟨e, -, -, -, hget⟩ | ⟨-, hget⟩ | ⟨e, -, he, hold, hget⟩ := c.get?_cases key now
  · rw [hget]
    exact hsame
  · rw [hget]
    exact hsame
  · rw [hget]
    refine ⟨hsame.toMirrors.dropKey he (.inl hold) fun _ _ => hold,
      (dropKey_sublist key c.entries).length_le.trans h.size, fun hd => ?_⟩
    rw [h.disabled hd] at he
    cases he

/-! ### Insertions -/

variable {key body : String} {mediaType : MediaType}

/-- An insertion puts an entry beside those that are held. -/
theorem Mirrors.put (h : c.Mirrors calls now)
    (hnew : ∀ q ∈ calls.filterMap inserted?, q.2.inserted < now) :
    { c with entries := c.entries.put key ⟨body, mediaType, now⟩ }.Mirrors
      (calls ++ [CacheCall.insert key body mediaType now]) now where
  nodup := Keyed.nodup_keys_put h.nodup _ _
  latest hk := by
    rw [Keyed.get?_put] at hk
    rw [latest?_concat_insert]
    split at hk
    · next hkey => rwa [if_pos hkey]
    · next hkey => rw [if_neg hkey, h.latest hk]
  held hk := by
    rw [latest?_concat_insert] at hk
    rw [Keyed.get?_put]
    split at hk
    · next hkey => exact .inl (by rw [if_pos hkey, hk])
    · next hkey =>
      rw [if_neg hkey]
      refine (h.held hk).imp_right (Or.imp_right fun hmany => hmany.trans ?_)
      refine Finset.card_le_card (laterKeys_subset_concat fun p hp => ?_)
      cases hp
      exact ⟨hnew _ (inserted_of_latest? hk), hkey⟩
  later hk hk' hlt := by
    rw [Keyed.get?_put] at hk ⊢
    rw [latest?_concat_insert] at hk'
    split at hk'
    · next hkey => exact .inl (by rw [if_pos hkey, hk'])
    · next hkey =>
      rw [if_neg hkey]
      split at hk
      · -- nothing was inserted after the insertion itself
        cases hk
        exact absurd (hnew _ (inserted_of_latest? hk')) (not_lt.2 hlt.le)
      · exact h.later hk hk' hlt

/-- The keys that are held beside one key were inserted last after it. -/
theorem length_le_card_laterKeys {entries : Keyed String CacheEntry}
    (hnodup : (entries.map Prod.fst).Nodup) {k : String} {time : ℕ}
    (h : ∀ p ∈ entries, p.1 ≠ k → latest? calls p.1 = some p.2 ∧ time < p.2.inserted) :
    entries.length ≤ (laterKeys calls k time).card + 1 := by
  have hsubset : (entries.map Prod.fst).toFinset.erase k ⊆ laterKeys calls k time := by
    intro k' hk'
    obtain ⟨hne, hmem⟩ := Finset.mem_erase.1 hk'
    obtain ⟨p, hp, rfl⟩ := List.mem_map.1 (List.mem_toFinset.1 hmem)
    obtain ⟨hlatest, hlt⟩ := h p hp hne
    exact mem_laterKeys.2 ⟨hne, p.2, hlatest, hlt⟩
  have hcard := Finset.card_le_card hsubset
  have herase := Finset.pred_card_le_card_erase (s := (entries.map Prod.fst).toFinset) (a := k)
  rw [List.toFinset_card_of_nodup hnodup, List.length_map] at herase
  omega

/-- **Dropping the oldest entry.** Where there is an entry too many, as many others as the capacity
were inserted last after the oldest. -/
theorem Mirrors.dropOldest (h : c.Mirrors calls now) (htimely : Timely calls)
    (hfull : c.capacity < c.size) :
    { c with entries := Cache.dropOldest c.entries }.Mirrors calls now := by
  rcases hoption : oldest? c.entries with _ | o
  · rw [Cache.size, oldest?_eq_none hoption] at hfull
    exact absurd hfull (Nat.not_lt_zero _)
  obtain ⟨hmem, hle⟩ := oldest?_le hoption
  have hget : c.entries.get? o.1 = some o.2 := (Keyed.get?_eq_some_iff h.nodup).2 hmem
  -- entries of other keys have other times, so they came later
  have hlater : ∀ p ∈ c.entries, p.1 ≠ o.1 →
      latest? calls p.1 = some p.2 ∧ o.2.inserted < p.2.inserted := by
    intro p hp hne
    have hlatest := h.latest ((Keyed.get?_eq_some_iff h.nodup).2 hp)
    refine ⟨hlatest, lt_of_le_of_ne (hle p hp) fun heq => hne ?_⟩
    exact htimely.key_eq hlatest (h.latest hget) heq.symm
  have hmany : c.capacity ≤ (laterKeys calls o.1 o.2.inserted).card := by
    have hlength := length_le_card_laterKeys h.nodup hlater
    rw [Cache.size] at hfull
    omega
  rw [Cache.dropOldest, hoption]
  refine h.dropKey hget (.inr hmany) fun hk hlt => ?_
  exact absurd (hle _ (Keyed.mem_of_get? hk)) (not_le.2 hlt)

theorem Reflects.insert (h : c.Reflects calls now)
    (htimely : Timely (calls ++ [CacheCall.insert key body mediaType now])) :
    (c.insert key body mediaType now).Reflects (calls ++ [CacheCall.insert key body mediaType now]) now := by
  obtain ⟨hd, hinsert⟩ | ⟨henabled, hinsert⟩ := c.insert_cases key body mediaType now
  · -- without lifetime or capacity nothing is held
    rw [hinsert]
    have hempty := h.disabled hd
    refine ⟨⟨h.nodup, ?_, fun hk => .inr ?_, ?_⟩, h.size, h.disabled⟩
    · simp [hempty]
    · rw [← Bool.not_eq_true, isEnabled_iff, not_and_or, not_lt, not_lt] at hd
      exact hd.imp (fun h => h.trans (Nat.zero_le _)) fun h => h.trans (Nat.zero_le _)
    · simp [hempty]
  · have hnew := (timely_concat.1 htimely).2.2 (key, ⟨body, mediaType, now⟩) rfl
    have hput : { c with entries := c.entries.put key ⟨body, mediaType, now⟩ }.Mirrors _ now :=
      h.toMirrors.put hnew
    have hlength : (c.entries.put key ⟨body, mediaType, now⟩).length ≤ c.capacity + 1 :=
      (Keyed.length_put_le _ _ _).trans (Nat.succ_le_succ h.size)
    have hsize := size_insert_le h.size key body mediaType now
    rw [hinsert] at hsize ⊢
    refine ⟨?_, hsize, fun hd => absurd henabled (by rw [show c.isEnabled = false from hd]; simp)⟩
    rw [shrink_eq hlength (Keyed.length_put_ne_zero _ _ _)]
    split
    · next hfull => exact hput.dropOldest htimely hfull
    · exact hput

end

/-! ### Whole histories -/

/-- **One call.** -/
theorem Reflects.run {c : Cache} {calls : List CacheCall} {call : CacheCall} {now : ℕ}
    (h : c.Reflects calls now) (hnow : now ≤ call.time) (htimely : Timely (calls ++ [call])) :
    (call.run c).Reflects (calls ++ [call]) call.time := by
  have h : c.Reflects calls call.time := ⟨h.toMirrors.mono hnow, h.size, h.disabled⟩
  cases call with
  | get key time => exact h.get key
  | insert key body mediaType time => exact h.insert htimely

theorem run_limits (c : Cache) (call : CacheCall) :
    (call.run c).lifetime = c.lifetime ∧ (call.run c).capacity = c.capacity := by
  cases call with
  | get key time => exact c.get?_limits key time
  | insert key body mediaType time => exact c.insert_limits key body mediaType time

/-- **Calls one after the other.** -/
theorem reflects_runAll (lifetime capacity : ℕ) {calls : List CacheCall} (htimely : Timely calls)
    {now : ℕ} (hnow : ∀ call ∈ calls, call.time ≤ now) :
    (runAll { lifetime, capacity } calls).Reflects calls now ∧
      (runAll { lifetime, capacity } calls).lifetime = lifetime ∧
        (runAll { lifetime, capacity } calls).capacity = capacity := by
  induction calls using List.reverseRecOn generalizing now with
  | nil =>
    obtain ⟨hmirrors, hsize, hdisabled⟩ := reflects_nil lifetime capacity
    exact ⟨⟨hmirrors.mono (Nat.zero_le now), hsize, hdisabled⟩, rfl, rfl⟩
  | append_singleton calls call ih =>
    obtain ⟨hbefore, htimes, -⟩ := timely_concat.1 htimely
    obtain ⟨hreflects, hlifetime, hcapacity⟩ := ih hbefore htimes
    obtain ⟨hlifetime', hcapacity'⟩ := run_limits (runAll { lifetime, capacity } calls) call
    rw [runAll_concat]
    refine ⟨?_, hlifetime'.trans hlifetime, hcapacity'.trans hcapacity⟩
    obtain ⟨hmirrors, hsize, hdisabled⟩ := hreflects.run le_rfl htimely
    exact ⟨hmirrors.mono (hnow call (by simp)), hsize, hdisabled⟩

/-- What is found for a key in a cache that reflects its history. -/
theorem Reflects.get?_eq_some_iff {c : Cache} {calls : List CacheCall} {now : ℕ}
    (h : c.Reflects calls now) {key : String} {e : CacheEntry} :
    (c.get? key now).1 = some e ↔ c.isEnabled = true ∧ latest? calls key = some e ∧
      now - e.inserted < c.lifetime ∧ (laterKeys calls key e.inserted).card < c.capacity := by
  constructor
  · intro hfound
    obtain ⟨e', henabled, he, hlive, hget⟩ | ⟨-, hget⟩ | ⟨e', -, -, -, hget⟩ :=
      c.get?_cases key now
    · rw [hget] at hfound
      obtain rfl := Option.some.inj hfound
      refine ⟨henabled, h.latest he, hlive, lt_of_lt_of_le ?_ h.size⟩
      -- what was inserted later is as fresh, so it is held, and so is the key itself
      have hsubset : laterKeys calls key e'.inserted ⊆
          (c.entries.map Prod.fst).toFinset.erase key := by
        intro k hk
        obtain ⟨hne, f, hf, hlt⟩ := mem_laterKeys.1 hk
        refine Finset.mem_erase.2 ⟨hne, List.mem_toFinset.2 (List.mem_map.2 ⟨(k, f), ?_, rfl⟩)⟩
        rcases h.later he hf hlt with hheld | hold
        · exact Keyed.mem_of_get? hheld
        · omega
      have hmem : key ∈ (c.entries.map Prod.fst).toFinset :=
        List.mem_toFinset.2 (List.mem_map.2 ⟨(key, e'), Keyed.mem_of_get? he, rfl⟩)
      calc (laterKeys calls key e'.inserted).card
          ≤ ((c.entries.map Prod.fst).toFinset.erase key).card := Finset.card_le_card hsubset
        _ < (c.entries.map Prod.fst).toFinset.card := Finset.card_erase_lt_of_mem hmem
        _ = c.size := by rw [List.toFinset_card_of_nodup h.nodup, List.length_map]; rfl
    · rw [hget] at hfound
      cases hfound
    · rw [hget] at hfound
      cases hfound
  · rintro ⟨henabled, hlatest, hlive, hfew⟩
    have he : c.entries.get? key = some e := by
      rcases h.held hlatest with he | hold | hmany
      · exact he
      · exact absurd hlive (not_lt.2 hold)
      · exact absurd hfew (not_lt.2 hmany)
    rw [get?, if_pos henabled, he]
    exact congrArg Prod.fst (if_pos hlive)

end Cache

open CacheCall

/-- **What a cache answers.** After any calls, at times that do not decrease and for insertions
increase, a cache finds a body for a key if and only if it keeps bodies at all, the last insertion
for the key was of this body, its time has not passed, and the last insertions of fewer other keys
than the capacity came later. It never has more bodies than its capacity, and none if it keeps
none. -/
theorem cache_answers_iff (lifetime capacity : ℕ) (calls : List CacheCall) (key : String) (now : ℕ)
    (h : Timely (calls ++ [CacheCall.get key now])) :
    let c := runAll { lifetime, capacity } calls
    (∀ body mediaType, (c.get? key now).1.map (fun e => (e.body, e.mediaType)) =
        some (body, mediaType) ↔
      (0 < lifetime ∧ 0 < capacity) ∧ ∃ s, latest? calls key = some ⟨body, mediaType, s⟩ ∧
        now - s < lifetime ∧ (laterKeys calls key s).card < capacity) ∧
      c.size ≤ capacity ∧ (lifetime = 0 ∨ capacity = 0 → c.size = 0) := by
  intro c
  obtain ⟨htimely, hnow, -⟩ := timely_concat.1 h
  obtain ⟨hreflects, hlifetime, hcapacity⟩ := Cache.reflects_runAll lifetime capacity htimely hnow
  refine ⟨fun body mediaType => ?_, hcapacity ▸ hreflects.size, fun hzero => ?_⟩
  · have hfound (e : CacheEntry) : (c.get? key now).1 = some e ↔ _ :=
      hreflects.get?_eq_some_iff
    simp only [Cache.isEnabled_iff, hlifetime, hcapacity] at hfound
    rw [Option.map_eq_some_iff]
    constructor
    · rintro ⟨e, he, heq⟩
      obtain ⟨henabled, hlatest, hrest⟩ := (hfound e).1 he
      cases heq
      exact ⟨henabled, e.inserted, hlatest, hrest⟩
    · rintro ⟨henabled, s, hlatest, hrest⟩
      exact ⟨_, (hfound _).2 ⟨henabled, hlatest, hrest⟩, rfl⟩
  · have hd : c.isEnabled = false := by
      rw [← Bool.not_eq_true, Cache.isEnabled_iff, hlifetime, hcapacity]
      omega
    rw [Cache.size, hreflects.disabled hd]
    rfl

/-- A body is found as long as only one of two other keys came later, though the cache has dropped
a third one. -/
theorem cache_answers_iff_beside_dropped :
    let calls := [CacheCall.insert "a" "1" .csv 0, .insert "b" "2" .json 1, .get "a" 1,
      .insert "c" "3" .csv 2]
    Timely (calls ++ [.get "b" 3]) ∧
      (((runAll ⟨10, 2, []⟩ calls).get? "b" 3).1.map fun e => (e.body, e.mediaType)) =
        some ("2", .json) ∧ ((runAll ⟨10, 2, []⟩ calls).get? "a" 3).1 = none := by
  intro calls
  have htimely : Timely (calls ++ [.get "b" 3]) := by
    constructor <;> simp [calls, CacheCall.time, CacheCall.inserted?, List.filterMap_cons]
  refine ⟨htimely, ((cache_answers_iff 10 2 calls "b" 3 htimely).1 "2" .json).2 ?_, by decide⟩
  exact ⟨by decide, 1, by decide, by decide, by decide⟩

end Choropleth
