import Choropleth.Proofs.Breaks.RowOrder

/-!
# Scratches that are used again

A classification clears each ledger before it is loaded and the values before they are filled, so
that nothing of what a scratch holds gets into its result or to the source. Requests worked off in
turn with one scratch therefore end as they would with a fresh one each, those that fail or stop
half-way included. What is left of a scratch is the order in which its maps are walked: it may
decide which of several areas an error names, and the sign of an extreme that is zero.

* `Likeness`, `Likeness.exact`, `Likeness.inAnyOrder`: what it means to end alike;
* `Source.Alike`: sources that load alike into empty ledgers;
* `classifyWith_alike`: they classify alike, whatever the scratches hold;
* `classifyArranged_exact`, `classifyArranged_alike`: maps that are walked in the same orders, and in
  any orders;
* `Source.recorded`: a source that keeps a record of its calls;
* `classifyInTurn`, `classifyApart`: requests with one scratch, and with one of their own each;
* `scratch_reuse_is_invisible`: there is no difference.
-/

namespace Choropleth

/-! ### What it means to end alike -/

/-- The errors are the same, or both say of an area of the same category and area type that it has
no ratio. -/
def QueryError.SameFault (e f : QueryError) : Prop :=
  e = f ∨ ∃ t category, e.IsRatioFault t category ∧ f.IsRatioFault t category

/-- Relations of ledgers, of values, of errors and of tables, such that everything that is made of
related ledgers is related. -/
structure Likeness where
  ledgers : Ledger → Ledger → Prop
  values : List Float → List Float → Prop
  errors : QueryError → QueryError → Prop
  tables : Breaks → Breaks → Prop
  errors_refl : ∀ e, errors e e
  tables_nil : tables [] []
  length_eq : ∀ {m n : Ledger}, ledgers m n → m.length = n.length
  values_of : ∀ {m n : Ledger}, ledgers m n → values m.values n.values
  ratios_of : ∀ {n n' d d' : Ledger}, ledgers n n' → ledgers d d' → ∀ t category,
    Outcome.Alike errors values (ratios t category n d) (ratios t category n' d')
  recordClasses_of : ∀ {xs ys : List Float} {b c : Breaks}, values xs ys → tables b c →
    ∀ k t category, Outcome.Alike errors tables (recordClasses b xs k t category)
      (recordClasses c ys k t category)

namespace Likeness

/-- Everything is the same. -/
def exact : Likeness where
  ledgers := (· = ·)
  values := (· = ·)
  errors := (· = ·)
  tables := (· = ·)
  errors_refl _ := rfl
  tables_nil := rfl
  length_eq h := congrArg List.length h
  values_of h := congrArg Ledger.values h
  ratios_of := by
    rintro n _ d _ rfl rfl t category
    exact .refl (fun _ => rfl) (fun _ => rfl) _
  recordClasses_of := by
    rintro xs _ b _ rfl rfl k t category
    exact .refl (fun _ => rfl) (fun _ => rfl) _

/-- Ledgers and values are the same up to their order. -/
def inAnyOrder : Likeness where
  ledgers := Ledger.SameMap
  values := List.Perm
  errors := QueryError.SameFault
  tables := Breaks.AgreesWith
  errors_refl _ := .inl rfl
  tables_nil := Breaks.agreesWith_nil
  length_eq h := h.perm.length_eq
  values_of h := h.values_perm
  ratios_of hn hd t category :=
    (ratios_alike t category hn hd).mono (fun _ _ h => .inr ⟨t, category, h⟩) fun _ _ => id
  recordClasses_of hxs hb k t category := by
    rw [recordClasses_eq, recordClasses_eq]
    exact ((classBounds_alike hxs k t category).mono (fun _ _ h => .inl h.1) fun _ _ => id).map
      fun _ _ hx => hb.recordBounds (t, category) hx

variable (l : Likeness)

theorem isEmpty_eq {m n : Ledger} (h : l.ledgers m n) : m.isEmpty = n.isEmpty := by
  rw [Bool.eq_iff_iff, List.isEmpty_iff_length_eq_zero, List.isEmpty_iff_length_eq_zero,
    l.length_eq h]

/-- The ratios that are put behind no values are alike, or so are the errors. -/
theorem pushRatios_of {n n' d d' : Ledger} (hn : l.ledgers n n') (hd : l.ledgers d d')
    (t : AreaType) (category : String) :
    (∃ xs ys, pushRatios t category n d [] = (none, xs) ∧
      pushRatios t category n' d' [] = (none, ys) ∧ l.values xs ys) ∨
    ∃ e f xs ys, pushRatios t category n d [] = (some e, xs) ∧
      pushRatios t category n' d' [] = (some f, ys) ∧ l.errors e f := by
  have h := l.ratios_of hn hd t category
  rcases pushRatios_cases t category n d [] with ⟨xs, hx, hpush⟩ | ⟨e, xs, hx, hpush⟩ <;>
    rcases pushRatios_cases t category n' d' [] with ⟨ys, hy, hpush'⟩ | ⟨f, ys, hy, hpush'⟩ <;>
      rw [hx, hy] at h <;> cases h
  · next h => exact .inl ⟨xs, ys, hpush, hpush', h⟩
  · next h => exact .inr ⟨e, f, xs, ys, hpush, hpush', h⟩

end Likeness

/-! ### Sources that load alike -/

variable {σ τ α β : Type}

/-- Two sources load alike into empty ledgers as long as their states are related, and the states
stay so. -/
structure Source.Alike (l : Likeness) (source : Source σ) (other : Source τ) (R : σ → τ → Prop) :
    Prop where
  fault_eq : ∀ v t c {s s'}, R s s' →
    (source.load v t c [] s).1.fault = (other.load v t c [] s').1.fault
  ledgers : ∀ v t c {s s'}, R s s' →
    l.ledgers (source.load v t c [] s).1.ledger (other.load v t c [] s').1.ledger
  related : ∀ v t c {s s'}, R s s' → R (source.load v t c [] s).2 (other.load v t c [] s').2

/-- Two steps have related results and leave the sources in related states. -/
structure EndAlike (Q : α → β → Prop) (R : σ → τ → Prop) (x : α × Bench σ) (y : β × Bench τ) :
    Prop where
  result : Q x.1 y.1
  related : R x.2.source y.2.source

section

variable {l : Likeness} {source : Source σ} {other : Source τ} {R : σ → τ → Prop}
  (h : source.Alike l other R) (r : BreaksRequest)

include h

/-- Loading numerators is alike, and the ledgers for them then are. The ledgers for denominators
are left alone. -/
theorem loadNumerator_alike (t : AreaType) (category : String) {w : Bench σ} {w' : Bench τ}
    (hw : R w.source w'.source) : ∃ fault v v',
      loadNumerator source r t category w = (fault, v) ∧
      loadNumerator other r t category w' = (fault, v') ∧ R v.source v'.source ∧
      l.ledgers v.scratch.numerator v'.scratch.numerator ∧
      v.scratch.denominator = w.scratch.denominator ∧
      v'.scratch.denominator = w'.scratch.denominator :=
  ⟨_, _, _, rfl, Prod.ext (h.fault_eq r.release t category hw).symm rfl,
    h.related r.release t category hw, h.ledgers r.release t category hw, rfl, rfl⟩

theorem loadDenominator_alike (t : AreaType) (category : String) {w : Bench σ} {w' : Bench τ}
    (hw : R w.source w'.source) : ∃ fault v v',
      loadDenominator source r t category w = (fault, v) ∧
      loadDenominator other r t category w' = (fault, v') ∧ R v.source v'.source ∧
      l.ledgers v.scratch.denominator v'.scratch.denominator :=
  ⟨_, _, _, rfl, Prod.ext (h.fault_eq r.release t category hw).symm rfl,
    h.related r.release t category hw, h.ledgers r.release t category hw⟩

theorem classifyValues_alike {b b' : Breaks} (hb : l.tables b b') (ps : List (AreaType × String))
    {w : Bench σ} {w' : Bench τ} (hw : R w.source w'.source) :
    EndAlike (Outcome.Alike l.errors (Option.Rel l.tables)) R (classifyValues source r b ps w)
      (classifyValues other r b' ps w') := by
  induction ps generalizing b b' w w' with
  | nil => exact ⟨.ok (.some hb), hw⟩
  | cons p ps ih =>
    obtain ⟨t, category⟩ := p
    obtain ⟨fault, v, v', hx, hy, hv, hnumerator, -, -⟩ := loadNumerator_alike h r t category hw
    rw [classifyValues, classifyValues, hx, hy]
    cases fault with
    | some e => exact ⟨.error (l.errors_refl e), hv⟩
    | none =>
      -- the values are cleared before they are filled, so that the numerators decide
      simp only [Bench.withValues, List.nil_append, l.isEmpty_eq hnumerator]
      split
      · exact ⟨.ok .none, hv⟩
      · rcases (l.recordClasses_of (l.values_of hnumerator) hb r.classes t category).exists_eq with
          ⟨c, c', hc, hc', hb⟩ | ⟨e, f, he, hf, hef⟩
        · rw [hc, hc']
          exact ih hb hv
        · rw [he, hf]
          exact ⟨.error hef, hv⟩

/-- The denominators have been loaded before and must be alike; they stay as they are. -/
theorem classifyRatios_alike (t : AreaType) {b b' : Breaks} (hb : l.tables b b')
    (cs : List String) {w : Bench σ} {w' : Bench τ} (hw : R w.source w'.source)
    (hdenominator : l.ledgers w.scratch.denominator w'.scratch.denominator) :
    EndAlike (Outcome.Alike l.errors l.tables) R (classifyRatios source r t b cs w)
      (classifyRatios other r t b' cs w') := by
  induction cs generalizing b b' w w' with
  | nil => exact ⟨.ok hb, hw⟩
  | cons category cs ih =>
    obtain ⟨fault, v, v', hx, hy, hv, hnumerator, hkept, hkept'⟩ :=
      loadNumerator_alike h r t category hw
    rw [← hkept, ← hkept'] at hdenominator
    rw [classifyRatios, classifyRatios, hx, hy]
    cases fault with
    | some e => exact ⟨.error (l.errors_refl e), hv⟩
    | none =>
      simp only [Bench.withValues, l.isEmpty_eq hnumerator, l.length_eq hnumerator,
        l.length_eq hdenominator]
      split
      · exact ⟨.error (l.errors_refl _), hv⟩
      · rcases l.pushRatios_of hnumerator hdenominator t category with
          ⟨xs, ys, hxs, hys, hvalues⟩ | ⟨e, f, xs, ys, he, hf, hef⟩
        · rw [hxs, hys]
          dsimp only
          rcases (l.recordClasses_of hvalues hb r.classes t category).exists_eq with
            ⟨c, c', hc, hc', hb⟩ | ⟨e, f, he, hf, hef⟩
          · rw [hc, hc']
            exact ih hb hv hdenominator
          · rw [he, hf]
            exact ⟨.error hef, hv⟩
        · rw [he, hf]
          exact ⟨.error hef, hv⟩

theorem classifyTypes_alike (divideBy : String) {b b' : Breaks} (hb : l.tables b b')
    (ts : List AreaType) {w : Bench σ} {w' : Bench τ} (hw : R w.source w'.source) :
    EndAlike (Outcome.Alike l.errors (Option.Rel l.tables)) R
      (classifyTypes source r divideBy b ts w) (classifyTypes other r divideBy b' ts w') := by
  induction ts generalizing b b' w w' with
  | nil => exact ⟨.ok (.some hb), hw⟩
  | cons t ts ih =>
    obtain ⟨fault, v, v', hx, hy, hv, hdenominator⟩ := loadDenominator_alike h r t divideBy hw
    rw [classifyTypes, classifyTypes, hx, hy]
    cases fault with
    | some e => exact ⟨.error (l.errors_refl e), hv⟩
    | none =>
      obtain ⟨hresult, hu⟩ := classifyRatios_alike h r t hb r.categories hv hdenominator
      simp only [l.isEmpty_eq hdenominator]
      split
      · exact ⟨.ok .none, hv⟩
      · generalize classifyRatios source r t b r.categories v = x at hresult hu ⊢
        generalize classifyRatios other r t b' r.categories v' = y at hresult hu ⊢
        obtain ⟨result, u⟩ := x
        obtain ⟨result', u'⟩ := y
        cases hresult with
        | error hef => exact ⟨.error hef, hu⟩
        | ok hb => exact ih hb hu

/-- **Sources that load alike classify alike, whatever the scratches hold.** -/
theorem classifyWith_alike {w : Bench σ} {w' : Bench τ} (hw : R w.source w'.source) :
    EndAlike (Outcome.Alike l.errors l.tables) R (classifyWith source r w)
      (classifyWith other r w') := by
  have hgetD {x : Option Breaks} {y : Option Breaks} (hxy : Option.Rel l.tables x y) :
      l.tables (x.getD []) (y.getD []) := by
    cases hxy with
    | none => exact l.tables_nil
    | some hxy => exact hxy
  cases hd : r.divideBy with
  | none =>
    obtain ⟨hresult, hrelated⟩ := classifyValues_alike h r l.tables_nil r.pairs hw
    simp only [classifyWith, hd]
    exact ⟨hresult.map fun _ _ => hgetD, hrelated⟩
  | some c =>
    obtain ⟨hresult, hrelated⟩ := classifyTypes_alike h r c l.tables_nil r.areaTypes hw
    simp only [classifyWith, hd]
    exact ⟨hresult.map fun _ _ => hgetD, hrelated⟩

end

/-! ### Maps that are walked in some orders -/

theorem Source.alike_refl (source : Source σ) : source.Alike .exact source (· = ·) where
  fault_eq v t c s s' hs := by rw [hs]
  ledgers v t c s s' hs := by
    rw [hs]
    rfl
  related v t c s s' hs := by rw [hs]

section

variable {source : Source σ} {other : Source τ} {R : σ → τ → Prop}
  (h : source.Alike .exact other R)

include h

/-- Sources that load the same load the same into maps that are walked in the same orders. -/
theorem Source.Alike.arranged_exact : source.arranged.Alike .exact other.arranged
    fun s s' => R s.1 s'.1 ∧ s.2 = s'.2 where
  fault_eq v t c _ _ hs := h.fault_eq v t c hs.1
  ledgers v t c s s' hs := by
    have hledger := h.ledgers v t c hs.1
    exact congrArg₂ (fun o m => Arrangement.entries (o 0) m) hs.2 hledger
  related v t c _ _ hs := ⟨h.related v t c hs.1, congrArg Arrangements.later hs.2⟩

/-- In maps that are walked in any orders the values are the same up to their order. -/
theorem Source.Alike.arranged : source.arranged.Alike .inAnyOrder other.arranged
    fun s s' => R s.1 s'.1 where
  fault_eq v t c _ _ hs := h.fault_eq v t c hs
  ledgers v t c s s' hs := by
    have hledger : (source.load v t c [] s.1).1.ledger = (other.load v t c [] s'.1).1.ledger :=
      h.ledgers v t c hs
    show ((s.2 0).entries (source.load v t c [] s.1).1.ledger).SameMap
      ((s'.2 0).entries (other.load v t c [] s'.1).1.ledger)
    rw [hledger]
    exact Arrangement.sameMap _ _ _
  related v t c _ _ hs := h.related v t c hs

/-- **Scratches whose maps are walked in the same orders** give the same results, whatever they
hold. -/
theorem classifyArranged_exact (r : BreaksRequest) {w w' : ArrangedScratch}
    (hw : w.arrangements = w'.arrangements) {s : σ} {s' : τ} (hs : R s s') :
    ∃ result v v' u u', classifyArranged source r w s = (result, v, u) ∧
      classifyArranged other r w' s' = (result, v', u') ∧
      v.arrangements = v'.arrangements ∧ R u u' := by
  have hend : EndAlike _ _
      (classifyWith source.arranged r ⟨w.scratch, s, w.arrangements⟩)
      (classifyWith other.arranged r ⟨w'.scratch, s', w'.arrangements⟩) :=
    classifyWith_alike h.arranged_exact r ⟨hs, hw⟩
  exact ⟨_, _, _, _, _, rfl, Prod.ext hend.result.eq.symm rfl, hend.related.2, hend.related.1⟩

/-- **Scratches whose maps are walked in any orders** give results that are alike. -/
theorem classifyArranged_alike (r : BreaksRequest) (w w' : ArrangedScratch) {s : σ} {s' : τ}
    (hs : R s s') :
    Outcome.Alike QueryError.SameFault Breaks.AgreesWith (classifyArranged source r w s).1
        (classifyArranged other r w' s').1 ∧
      R (classifyArranged source r w s).2.2 (classifyArranged other r w' s').2.2 := by
  have hend : EndAlike _ _
      (classifyWith source.arranged r ⟨w.scratch, s, w.arrangements⟩)
      (classifyWith other.arranged r ⟨w'.scratch, s', w'.arrangements⟩) :=
    classifyWith_alike h.arranged r hs
  exact ⟨hend.result, hend.related⟩

end

/-! ### Requests in turn -/

/-- Works off requests in turn with one scratch. -/
def classifyInTurn (source : Source σ) : List BreaksRequest → ArrangedScratch → σ →
    List (Except QueryError Breaks) × ArrangedScratch × σ
  | [], w, s => ([], w, s)
  | r :: rs, w, s =>
    let (result, w, s) := classifyArranged source r w s
    let (results, w, s) := classifyInTurn source rs w s
    (result :: results, w, s)

/-- Works off requests in turn with a fresh scratch for each, whose maps are walked in orders of
their own. -/
def classifyApart (source : Source σ) : List (BreaksRequest × Arrangements) → σ →
    List (Except QueryError Breaks) × σ
  | [], s => ([], s)
  | (r, arrangements) :: rs, s =>
    let (result, _, s) := classifyArranged source r { arrangements } s
    let (results, s) := classifyApart source rs s
    (result :: results, s)

section

variable {source : Source σ} {other : Source τ} {R : σ → τ → Prop}
  (h : source.Alike .exact other R)

include h

/-- Requests in turn have the same results with scratches whose maps are walked in the same orders,
and leave the sources in related states. -/
theorem classifyInTurn_exact (rs : List BreaksRequest) {w w' : ArrangedScratch}
    (hw : w.arrangements = w'.arrangements) {s : σ} {s' : τ} (hs : R s s') :
    (classifyInTurn source rs w s).1 = (classifyInTurn other rs w' s').1 ∧
      R (classifyInTurn source rs w s).2.2 (classifyInTurn other rs w' s').2.2 := by
  induction rs generalizing w w' s s' with
  | nil => exact ⟨rfl, hs⟩
  | cons r rs ih =>
    obtain ⟨result, v, v', u, u', hx, hy, hv, hu⟩ := classifyArranged_exact h r hw hs
    obtain ⟨hresults, hlast⟩ := ih hv hu
    simp only [classifyInTurn, hx, hy]
    exact ⟨congrArg (result :: ·) hresults, hlast⟩

/-- Fresh scratches have results that are alike, in whatever orders their maps are walked. -/
theorem classifyInTurn_alike (rs : List (BreaksRequest × Arrangements)) (w : ArrangedScratch)
    {s : σ} {s' : τ} (hs : R s s') :
    List.Forall₂ (Outcome.Alike QueryError.SameFault Breaks.AgreesWith)
        (classifyInTurn source (rs.map Prod.fst) w s).1 (classifyApart other rs s').1 ∧
      R (classifyInTurn source (rs.map Prod.fst) w s).2.2 (classifyApart other rs s').2 := by
  induction rs generalizing w s s' with
  | nil => exact ⟨.nil, hs⟩
  | cons r rs ih =>
    obtain ⟨hresult, hu⟩ := classifyArranged_alike h r.1 w { arrangements := r.2 } hs
    obtain ⟨hresults, hlast⟩ := ih (classifyArranged source r.1 w s).2.1 hu
    exact ⟨.cons hresult hresults, hlast⟩

end

/-- The results are those of fresh scratches whose maps happen to be walked in the same orders. -/
theorem exists_classifyApart_eq (source : Source σ) (rs : List BreaksRequest) (w : ArrangedScratch)
    (s : σ) : ∃ rs' : List (BreaksRequest × Arrangements), rs'.map Prod.fst = rs ∧
      classifyApart source rs' s =
        ((classifyInTurn source rs w s).1, (classifyInTurn source rs w s).2.2) := by
  induction rs generalizing w s with
  | nil => exact ⟨[], rfl, rfl⟩
  | cons r rs ih =>
    have horders : w.arrangements =
        ({ arrangements := w.arrangements } : ArrangedScratch).arrangements := rfl
    obtain ⟨result, v, v', u, u', hx, hy, -, rfl⟩ :=
      classifyArranged_exact source.alike_refl r horders (s := s) rfl
    obtain ⟨rs', hrs, hrest⟩ := ih v u
    refine ⟨(r, w.arrangements) :: rs', congrArg (r :: ·) hrs, ?_⟩
    simp only [classifyApart, classifyInTurn, hx, hy, hrest]

/-! ### Recorded calls -/

/-- A call of a source: what is asked for, and the ledger that it is to be put into. -/
structure LoadCall where
  release : Release
  areaType : AreaType
  category : String
  ledger : Ledger
deriving DecidableEq

/-- The source with a record of its calls. -/
def Source.recorded (source : Source σ) : Source (σ × List LoadCall) where
  load v t c m s :=
    let (loaded, s') := source.load v t c m s.1
    (loaded, s', s.2 ++ [⟨v, t, c, m⟩])

/-- Recording makes no difference, and all ledgers in the record are empty if those in it are. -/
theorem Source.recorded_alike (source : Source σ) : source.recorded.Alike .exact source
    fun s s' => s.1 = s' ∧ ∀ call ∈ s.2, call.ledger = [] where
  fault_eq := by
    rintro v t c s _ ⟨rfl, -⟩
    rfl
  ledgers := by
    rintro v t c s _ ⟨rfl, -⟩
    rfl
  related := by
    rintro v t c s _ ⟨rfl, hempty⟩
    exact ⟨rfl, List.forall_mem_append.2 ⟨hempty, List.forall_mem_singleton.2 rfl⟩⟩

/-- **Using a scratch again makes no difference.** Whatever the scratch holds at the start, requests
worked off in turn have the results that fresh scratches give whose maps are walked in the same
orders. A fresh scratch whose maps are walked in other orders fails where the old one fails, with the
same error but for the area without a ratio that it names, and succeeds where the old one succeeds,
with the same breaks and numerically equal extremes. The source always ends in the same state after
the same loads, and every ledger handed to it is empty; recording the loads makes no difference. -/
theorem scratch_reuse_is_invisible (source : Source σ) (rs : List (BreaksRequest × Arrangements))
    (scratch : ArrangedScratch) (s : σ) :
    let again := classifyInTurn source.recorded (rs.map Prod.fst) scratch (s, [])
    let fresh := classifyApart source.recorded rs (s, [])
    let unrecorded := classifyInTurn source (rs.map Prod.fst) scratch s
    List.Forall₂ (Outcome.Alike QueryError.SameFault Breaks.AgreesWith) again.1 fresh.1 ∧
      again.2.2 = fresh.2 ∧ (∀ call ∈ fresh.2.2, call.ledger = []) ∧
      (∃ rs', rs'.map Prod.fst = rs.map Prod.fst ∧
        classifyApart source.recorded rs' (s, []) = (again.1, again.2.2)) ∧
      unrecorded.1 = again.1 ∧ unrecorded.2.2 = again.2.2.1 := by
  intro again fresh unrecorded
  obtain ⟨hresults, hstate⟩ :=
    classifyInTurn_alike source.recorded.alike_refl rs scratch (s := (s, [])) rfl
  obtain ⟨hsame, hlast, hempty⟩ := classifyInTurn_exact source.recorded_alike (rs.map Prod.fst)
    (w := scratch) rfl (s := (s, [])) ⟨rfl, nofun⟩
  exact ⟨hresults, hstate, hstate ▸ hempty, exists_classifyApart_eq _ _ _ _, hsame.symm,
    hlast.symm⟩

end Choropleth
