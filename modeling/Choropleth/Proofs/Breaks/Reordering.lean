import Choropleth.Proofs.Breaks.Verdicts
import Choropleth.Proofs.Request.Identity

/-!
# Classification and the order of a request

Requests for the same thing share a key, so that the answer to one is given to the other. Their
classifications end alike unless some pairs of the request have no data and others fail: then the
first of them decides, and the order of the request with it.

* `BreaksRequest.Mixed`: some pairs have no data and others fail;
* `toOption_walk_congr`: walks along the same pairs end alike, unless the pairs are mixed;
* `reorderings_agree_iff`: all orders of a request agree if and only if it is not mixed;
* `reorderings_disagree`: a request of which two orders disagree.
-/

namespace Choropleth

/-! ### Walks along the same pairs -/

section

variable {verdict : AreaType × String → Verdict}

/-- If all pairs have classes, all of them are recorded. -/
theorem walk_of_all_some {ps : List (AreaType × String)}
    (h : ∀ p ∈ ps, ∃ x, verdict p = .ok (some x))
    (b : Breaks) :
    walk verdict b ps = .ok (some (Breaks.recordAll (fun p => (verdict p).bounds) ps b)) := by
  induction ps generalizing b with
  | nil => rfl
  | cons p ps ih =>
    obtain ⟨x, hx⟩ := h p List.mem_cons_self
    rw [walk, hx, Breaks.recordAll, hx]
    exact ih (fun q hq => h q (List.mem_cons_of_mem p hq)) _

/-- If no pair fails and one has no data, the walk ends without data. -/
theorem walk_of_no_error {ps : List (AreaType × String)} (hok : ∀ p ∈ ps, ∀ e, verdict p ≠ .error e)
    (hnone : ∃ p ∈ ps, verdict p = .ok none) (b : Breaks) : walk verdict b ps = .ok none := by
  induction ps generalizing b with
  | nil => simp at hnone
  | cons p ps ih =>
    rw [walk]
    cases hp : verdict p with
    | error e => exact absurd hp (hok p List.mem_cons_self e)
    | ok x =>
      cases x with
      | none => rfl
      | some x =>
        refine ih (fun q hq => hok q (List.mem_cons_of_mem p hq)) ?_ _
        obtain ⟨q, hq, hv⟩ := hnone
        rcases List.mem_cons.1 hq with rfl | hq
        · simp [hp] at hv
        · exact ⟨q, hq, hv⟩

/-- If all pairs have data and one fails, the walk fails. -/
theorem walk_of_no_none {ps : List (AreaType × String)} (hsome : ∀ p ∈ ps, verdict p ≠ .ok none)
    (herror : ∃ p ∈ ps, ∃ e, verdict p = .error e) (b : Breaks) :
    ∃ e, walk verdict b ps = .error e := by
  induction ps generalizing b with
  | nil => simp at herror
  | cons p ps ih =>
    rw [walk]
    cases hp : verdict p with
    | error e => exact ⟨e, rfl⟩
    | ok x =>
      cases x with
      | none => exact absurd hp (hsome p List.mem_cons_self)
      | some x =>
        refine ih (fun q hq => hsome q (List.mem_cons_of_mem p hq)) ?_ _
        obtain ⟨q, hq, e, hv⟩ := herror
        rcases List.mem_cons.1 hq with rfl | hq
        · simp [hp] at hv
        · exact ⟨q, hq, e, hv⟩

/-- Walks along the same pairs end alike, unless some pairs have no data and others fail. -/
theorem toOption_walk_congr {ps qs : List (AreaType × String)} (h : ∀ p, p ∈ ps ↔ p ∈ qs)
    (hm : ¬((∃ p ∈ ps, verdict p = .ok none) ∧ ∃ p ∈ ps, ∃ e, verdict p = .error e)) :
    (walk verdict [] ps).toOption = (walk verdict [] qs).toOption := by
  by_cases hnone : ∃ p ∈ ps, verdict p = .ok none
  · have hok : ∀ p ∈ ps, ∀ e, verdict p ≠ .error e := fun p hp e he => hm ⟨hnone, p, hp, e, he⟩
    rw [walk_of_no_error hok hnone, walk_of_no_error (fun p hp => hok p ((h p).2 hp))]
    obtain ⟨p, hp, hv⟩ := hnone
    exact ⟨p, (h p).1 hp, hv⟩
  by_cases herror : ∃ p ∈ ps, ∃ e, verdict p = .error e
  · have hsome : ∀ p ∈ ps, verdict p ≠ .ok none := fun p hp hv => hnone ⟨p, hp, hv⟩
    obtain ⟨e, he⟩ := walk_of_no_none hsome herror []
    obtain ⟨p, hp, hv⟩ := herror
    obtain ⟨e', he'⟩ := walk_of_no_none (fun p hp => hsome p ((h p).2 hp)) ⟨p, (h p).1 hp, hv⟩ []
    rw [he, he']
    rfl
  · have hall : ∀ p ∈ ps, ∃ x, verdict p = .ok (some x) := by
      intro p hp
      cases hv : verdict p with
      | error e => exact absurd ⟨p, hp, e, hv⟩ herror
      | ok x =>
        cases x with
        | none => exact absurd ⟨p, hp, hv⟩ hnone
        | some x => exact ⟨x, rfl⟩
    rw [walk_of_all_some hall, walk_of_all_some fun p hp => hall p ((h p).2 hp),
      Breaks.recordAll_congr h]

end

/-! ### Orders of a request -/

namespace BreaksRequest

/-- Some pairs of the request have no data and others fail. With denominators, the pairs of an area
type without denominators have no data. -/
def Mixed (r : BreaksRequest) (rows : Release → AreaType → String → Ledger) : Prop :=
  (∃ p ∈ r.pairs, r.verdict rows p = .ok none) ∧ ∃ p ∈ r.pairs, ∃ e, r.verdict rows p = .error e

theorem mem_pairs {r : BreaksRequest} {p : AreaType × String} :
    p ∈ r.pairs ↔ p.1 ∈ r.areaTypes ∧ p.2 ∈ r.categories := by
  obtain ⟨t, c⟩ := p
  simp [pairs]

theorem SameAs.mem_pairs_iff {a b : BreaksRequest} (h : a.SameAs b) (p : AreaType × String) :
    p ∈ a.pairs ↔ p ∈ b.pairs := by
  rw [mem_pairs, mem_pairs, h.areaTypes, h.categories]

theorem SameAs.verdict_eq {a b : BreaksRequest} (h : a.SameAs b)
    (rows : Release → AreaType → String → Ledger) : a.verdict rows = b.verdict rows := by
  funext p
  simp only [verdict, h.release, h.classes, h.divideBy]

/-- The request with a pair of it put in front of all others. -/
def startingWith (r : BreaksRequest) (p : AreaType × String) : BreaksRequest :=
  { r with areaTypes := p.1 :: r.areaTypes, categories := p.2 :: r.categories }

theorem sameAs_startingWith {r : BreaksRequest} {p : AreaType × String} (hp : p ∈ r.pairs) :
    r.SameAs (r.startingWith p) := by
  obtain ⟨ht, hc⟩ := mem_pairs.1 hp
  refine ⟨rfl, fun c => ?_, fun t => ?_, rfl, rfl⟩
  · simp only [startingWith, List.mem_cons]
    exact ⟨.inr, fun h => h.elim (fun h => h ▸ hc) id⟩
  · simp only [startingWith, List.mem_cons]
    exact ⟨.inr, fun h => h.elim (fun h => h ▸ ht) id⟩

theorem pairs_startingWith (r : BreaksRequest) (p : AreaType × String) :
    ∃ ps, (r.startingWith p).pairs = p :: ps := by
  exact ⟨_, rfl⟩

end BreaksRequest

section

variable {σ : Type} {source : Source σ} {rows : Release → AreaType → String → Ledger}

/-- The end of a classification whose first pair decides. -/
theorem toOption_classifyWith (h : source.Steady rows) (r : BreaksRequest) (w : Bench σ) :
    (classifyWith source r w).1.toOption =
      (walk (r.verdict rows) [] r.pairs).toOption.map fun b => b.getD [] := by
  rw [classifyWith_eq h]
  cases walk (r.verdict rows) [] r.pairs <;> rfl

/-- **All orders of a request agree if and only if it is not mixed.** For a source that never fails
and always loads the same rows, requests for the same thing either both fail or have the same
breaks, whatever the state of the source and the scratch, precisely if the request does not have
pairs without data beside pairs that fail. -/
theorem reorderings_agree_iff (h : source.Steady rows) (a : BreaksRequest) (w w' : Bench σ) :
    (∀ b : BreaksRequest, a.SameAs b →
      (classifyWith source a w).1.toOption = (classifyWith source b w').1.toOption) ↔
        ¬a.Mixed rows := by
  constructor
  · rintro hall ⟨⟨p, hp, hnone⟩, q, hq, e, herror⟩
    -- the pair without data in front gives no breaks, the pair that fails in front gives an error
    have hp' := hall _ (BreaksRequest.sameAs_startingWith hp)
    have hq' := hall _ (BreaksRequest.sameAs_startingWith hq)
    obtain ⟨ps, hps⟩ := a.pairs_startingWith p
    obtain ⟨qs, hqs⟩ := a.pairs_startingWith q
    have hvp := (BreaksRequest.sameAs_startingWith hp).verdict_eq rows
    have hvq := (BreaksRequest.sameAs_startingWith hq).verdict_eq rows
    rw [toOption_classifyWith h (a.startingWith p), hps, ← hvp, walk, hnone] at hp'
    rw [toOption_classifyWith h (a.startingWith q), hqs, ← hvq, walk, herror] at hq'
    rw [hp'] at hq'
    cases hq'
  · intro hm b hb
    rw [toOption_classifyWith h, toOption_classifyWith h, ← hb.verdict_eq rows,
      toOption_walk_congr hb.mem_pairs_iff hm]

end

/-! ### Sources of given rows -/

/-- The source that puts given rows into the ledger one after another. -/
def Source.ofRows (rows : Release → AreaType → String → List (String × Float)) : Source Unit where
  load v t category ledger s :=
    (⟨(rows v t category).foldl (fun m row => m.put row.1 row.2) ledger, none⟩, s)

theorem steady_ofRows (rows : Release → AreaType → String → List (String × Float)) :
    (Source.ofRows rows).Steady fun v t category =>
      (rows v t category).foldl (fun m row => m.put row.1 row.2) [] :=
  ⟨fun _ _ _ _ => rfl⟩

/-- Rows of a single category in a single area. -/
def oneRow (category : String) (_ : Release) (_ : AreaType) (c : String) : List (String × Float) :=
  if c = category then [("A", 1)] else []

/-- Two orders of a request whose metric sets all have data or are all empty. -/
theorem reorderings_agree_without_data :
    let a : BreaksRequest := ⟨{}, ["X", "Y"], [.district], 1, none⟩
    let b : BreaksRequest := ⟨{}, ["Y", "X", "Y"], [.district], 1, none⟩
    (Source.ofRows (oneRow "Z")).Steady (fun v t c =>
        (oneRow "Z" v t c).foldl (fun m row => m.put row.1 row.2) []) ∧ a.SameAs b ∧
      (classifyWith (Source.ofRows (oneRow "Z")) a ⟨{}, ()⟩).1.toOption =
        (classifyWith (Source.ofRows (oneRow "Z")) b ⟨{}, ()⟩).1.toOption := by
  intro a b
  have hs := steady_ofRows (oneRow "Z")
  have hab : a.SameAs b := by
    refine ⟨rfl, fun c => ?_, by simp [a, b], rfl, rfl⟩
    simp only [a, b, List.mem_cons, List.not_mem_nil, or_false]
    exact ⟨fun h => h.elim (fun h => .inr (.inl h)) .inl,
      fun h => h.elim .inr fun h => h.elim .inl .inr⟩
  refine ⟨hs, hab, (reorderings_agree_iff hs a ⟨{}, ()⟩ ⟨{}, ()⟩).2 ?_ b hab⟩
  rintro ⟨-, p, hp, e, he⟩
  obtain ⟨-, hc⟩ := BreaksRequest.mem_pairs.1 hp
  have hempty : oneRow "Z" {} p.1 p.2 = [] := by
    rcases List.mem_cons.1 hc with hc | hc
    · simp [oneRow, hc]
    · simp [oneRow, List.mem_singleton.1 hc]
  simp [BreaksRequest.verdict, a, hempty] at he

/-- Two orders of one request that end differently: a category without data in front of one with
fewer values than classes, and behind it. -/
theorem reorderings_disagree :
    let a : BreaksRequest := ⟨{}, ["X", "Z"], [.district], 2, none⟩
    let b : BreaksRequest := ⟨{}, ["Z", "X"], [.district], 2, none⟩
    (∃ rows, (Source.ofRows (oneRow "Z")).Steady rows) ∧ a.SameAs b ∧
      (classify (Source.ofRows (oneRow "Z")) a ()).toOption = some [] ∧
        (classify (Source.ofRows (oneRow "Z")) b ()).toOption = none := by
  intro a b
  have hmany : upperBounds [(1 : Float)] 2 = .error (.tooMany 2 1) := by
    have hfinite : Float.isFinite 1 = true := by decide
    simp [upperBounds, classes, classes?, sortValues, distinctCount, Scalar.isFinite, hfinite,
      Except.map]
  refine ⟨⟨_, steady_ofRows _⟩,
    ⟨rfl, fun c => by simp [a, b, or_comm], by simp [a, b], rfl, rfl⟩, by rfl, ?_⟩
  have hpairs : b.pairs = [(.district, "Z"), (.district, "X")] := rfl
  have hrows : oneRow "Z" b.release .district "Z" = [("A", 1)] := if_pos rfl
  rw [classify, toOption_classifyWith (steady_ofRows (oneRow "Z")), hpairs, walk]
  simp [BreaksRequest.verdict, b, hrows, Keyed.put, Ledger.values, classBounds, hmany, Except.map,
    Except.toOption]

end Choropleth
