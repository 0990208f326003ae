import Mathlib.Data.List.Basic
import Mathlib.Data.Nat.Notation
import Choropleth.Store.Load

/-!
# Statements that store many observations

Observations are stored chunk by chunk. A statement has four places for each observation of its
chunk, and what is bound to them one by one is what it stores.

* `flatten_chunks`: chunks have the observations in their order;
* `Places.entries_bindAll`: the groups of places are the observations that were bound to them;
* `Store.insertChunks_eq`: all observations are stored, and nothing else.
-/

namespace Choropleth

theorem flatten_chunks {α : Type} (size : ℕ) (xs : List α) : (chunks size xs).flatten = xs := by
  induction xs using chunks.induct size with
  | case1 => simp [chunks]
  | case2 x r ih => rw [chunks, List.flatten_cons, ih, List.cons_append, List.take_append_drop]

namespace Resolved

/-- What is bound to the four places of an observation. -/
def data (releaseId : ℕ) (e : Resolved) : List Datum :=
  [.int e.areaId, .int e.categoryId, .int releaseId, .real e.value]

/-- The entry of an observation. -/
def entry (releaseId : ℕ) (e : Resolved) : FactEntry :=
  ⟨e.areaId, e.categoryId, releaseId, e.value⟩

end Resolved

namespace Places

open Resolved

/-- Binding goes on behind the places that have their values, four places at a time. -/
theorem bindAll_append (releaseId : ℕ) {es : List Resolved} (bound : List Datum)
    {free : List Datum} (h : free.length = 4 * es.length) :
    bindAll (bound ++ free).toArray releaseId (bound.length + 1) es =
      (bound ++ es.flatMap (data releaseId)).toArray := by
  induction es generalizing bound free with
  | nil =>
    obtain rfl := List.length_eq_zero_iff.1 h
    simp [bindAll]
  | cons e es ih =>
    obtain ⟨w, x, y, z, free, rfl⟩ : ∃ w x y z r, free = w :: x :: y :: z :: r := by
      rcases free with _ | ⟨w, _ | ⟨x, _ | ⟨y, _ | ⟨z, r⟩⟩⟩⟩
      · simp at h
      · simp at h; omega
      · simp at h; omega
      · simp at h; omega
      · exact ⟨w, x, y, z, r, rfl⟩
    have hfree : free.length = 4 * es.length := by
      simp only [List.length_cons] at h
      omega
    -- the four places that follow get the values of `e`
    have hstep := ih (bound ++ data releaseId e) hfree
    rw [List.flatMap_cons, ← List.append_assoc, ← hstep]
    simp [bindAll, bind, data, Nat.add_assoc]

theorem group?_data (releaseId : ℕ) (e : Resolved) (r : List Datum) :
    group? (data releaseId e ++ r).toArray 0 = some (e.entry releaseId) := rfl

theorem group?_succ (releaseId : ℕ) (e : Resolved) (r : List Datum) (group : ℕ) :
    group? (data releaseId e ++ r).toArray (group + 1) = group? r.toArray group := by
  simp [group?, data, Nat.mul_add, Nat.add_right_comm _ 4]

/-- The groups of places are the observations that were bound to them. -/
theorem entries_bindAll (releaseId : ℕ) (es : List Resolved) :
    (List.range es.length).filterMap ((unbound es.length).bindAll releaseId 1 es).group? =
      es.map (entry releaseId) := by
  have hfree : (List.replicate (4 * es.length) Datum.null).length = 4 * es.length :=
    List.length_replicate
  have hbound := bindAll_append releaseId [] hfree
  rw [List.nil_append, List.nil_append, List.toArray_replicate] at hbound
  rw [unbound, show (1 : ℕ) = [].length + 1 from rfl, hbound]
  clear hfree hbound
  induction es with
  | nil => rfl
  | cons e es ih =>
    have hsucc : group? (data releaseId e ++ es.flatMap (data releaseId)).toArray ∘ Nat.succ =
        group? (es.flatMap (data releaseId)).toArray := by
      funext group
      exact group?_succ releaseId e _ group
    rw [List.length_cons, List.range_succ_eq_map, List.flatMap_cons,
      List.filterMap_cons_some (group?_data releaseId e _), List.filterMap_map, hsucc, ih,
      List.map_cons]

end Places

namespace Store

open Resolved

theorem insertBound_eq (s : Store) (releaseId : ℕ) (chunk : List Resolved) :
    s.insertBound chunk.length ((Places.unbound chunk.length).bindAll releaseId 1 chunk) =
      (chunk.length, { s with facts := s.facts ++ chunk.map (entry releaseId) }) := by
  rw [insertBound, Places.entries_bindAll, List.length_map]

/-- **All observations are stored in their order, and nothing else.** -/
theorem insertChunks_eq (s : Store) (releaseId : ℕ) (cs : List (List Resolved)) :
    s.insertChunks releaseId cs =
      (cs.flatten.length, { s with facts := s.facts ++ cs.flatten.map (entry releaseId) }) := by
  induction cs generalizing s with
  | nil => simp [insertChunks]
  | cons c cs ih =>
    rw [insertChunks, insertBound_eq]
    dsimp only
    rw [ih, List.flatten_cons, List.length_append, List.map_append, List.append_assoc]

end Store
end Choropleth
