import Choropleth.Breaks.Arranged
import Choropleth.Proofs.Breaks.AllOrNothing

/-!
# Classification and the order of rows

Metric sets are values by areas, so that the order in which their rows were put into a ledger should
not be seen. Values are sorted before they are divided, in an order that tells all numbers apart,
and the extremes are found in any order, except that of equal zeros the first is kept.

* `Ledger.SameMap`, `Source.SameMaps`: the same values of the same areas in any order;
* `Source.Reliable.sameMaps_arranged`: maps that are walked in any order;
* `ClassBounds.Agrees`, `Breaks.AgreesWith`: the same classes and numerically equal extremes;
* `MetricSet.verdict_alike`: what becomes of a metric set;
* `MetricSet.walk_alike`: one set after another;
* `row_order_is_invisible`: classifications of the same values end alike.
-/

namespace Choropleth

/-! ### The same values -/

/-- The ledgers have one value of every area, and the same one. -/
structure Ledger.SameMap (m n : Ledger) : Prop where
  nodup : (m.map Prod.fst).Nodup
  perm : m.Perm n

namespace Ledger.SameMap

variable {m n : Ledger} (h : m.SameMap n)

include h

theorem symm : n.SameMap m := ⟨(h.perm.map Prod.fst).nodup h.nodup, h.perm.symm⟩

theorem get?_eq (area : String) : m.get? area = n.get? area :=
  Keyed.get?_eq_of_perm h.perm h.nodup area

theorem values_perm : m.values.Perm n.values := h.perm.map Prod.snd

theorem isEmpty_eq : m.isEmpty = n.isEmpty := by
  rw [Bool.eq_iff_iff, List.isEmpty_iff, List.isEmpty_iff]
  exact ⟨fun hm => (hm ▸ h.perm).nil_eq.symm, fun hn => (hn ▸ h.perm).eq_nil⟩

end Ledger.SameMap

/-- The metric sets are of the same category in the same area type and have the same values. -/
structure MetricSet.SameMaps (m n : MetricSet) : Prop where
  areaType : m.areaType = n.areaType
  category : m.category = n.category
  numerator : m.numerator.SameMap n.numerator
  denominator : Option.Rel Ledger.SameMap m.denominator n.denominator

namespace MetricSet.SameMaps

variable {m n : MetricSet} (h : m.SameMaps n)

include h

theorem symm : n.SameMaps m := by
  obtain ⟨t, category, numerator, denominator⟩ := m
  obtain ⟨t', category', numerator', denominator'⟩ := n
  obtain ⟨rfl, rfl, hn, hd⟩ := h
  refine ⟨rfl, rfl, hn.symm, ?_⟩
  cases hd with
  | none => exact .none
  | some hd => exact .some hd.symm

theorem isLedger : m.IsLedger := by
  obtain ⟨t, category, numerator, denominator⟩ := m
  obtain ⟨t', category', numerator', denominator'⟩ := n
  obtain ⟨-, -, hn, hd⟩ := h
  cases hd with
  | none => exact ⟨hn.nodup, nofun⟩
  | some hd => exact ⟨hn.nodup, fun _ h => (Option.some.inj h) ▸ hd.nodup⟩

/-- The values, or the ratios, are the same in any order. -/
theorem values_perm : m.values.Perm n.values := by
  obtain ⟨t, category, numerator, denominator⟩ := m
  obtain ⟨t', category', numerator', denominator'⟩ := n
  obtain ⟨-, -, hn, hd⟩ := h
  cases hd with
  | none => exact hn.values_perm
  | some hd =>
    simp only [values, hn.get?_eq]
    exact hd.perm.filterMap _

end MetricSet.SameMaps

/-- As long as the states of the sources are related, they load the same values of the same areas
into empty ledgers, in any order and without ever failing, and their states stay related. -/
structure Source.SameMaps {σ τ : Type} (source : Source σ) (other : Source τ) (R : σ → τ → Prop) :
    Prop where
  reliable : source.Reliable
  other_reliable : other.Reliable
  get?_eq : ∀ v t c {s s'}, R s s' → ∀ area,
    (source.load v t c [] s).1.ledger.get? area = (other.load v t c [] s').1.ledger.get? area
  related : ∀ v t c {s s'}, R s s' → R (source.load v t c [] s).2 (other.load v t c [] s').2

namespace Source.SameMaps

variable {σ τ : Type} {source : Source σ} {other : Source τ} {R : σ → τ → Prop}
  (h : source.SameMaps other R) (r : BreaksRequest)

include h

theorem sameMap (v : Release) (t : AreaType) (c : String) {s : σ} {s' : τ} (hs : R s s') :
    (source.load v t c [] s).1.ledger.SameMap (other.load v t c [] s').1.ledger :=
  ⟨h.reliable.nodup v t c s, Keyed.perm_of_get?_eq (h.reliable.nodup v t c s)
    (h.other_reliable.nodup v t c s') (h.get?_eq v t c hs)⟩

theorem loadCategories (t : AreaType) {d e : Option Ledger} (hd : Option.Rel Ledger.SameMap d e)
    (cs : List String) {s : σ} {s' : τ} (hs : R s s') :
    List.Forall₂ MetricSet.SameMaps (source.loadCategories r t d cs s).1
        (other.loadCategories r t e cs s').1 ∧
      R (source.loadCategories r t d cs s).2 (other.loadCategories r t e cs s').2 := by
  induction cs generalizing s s' with
  | nil => exact ⟨.nil, hs⟩
  | cons c cs ih =>
    obtain ⟨hsets, hlast⟩ := ih (h.related r.release t c hs)
    exact ⟨.cons ⟨rfl, rfl, h.sameMap r.release t c hs, hd⟩ hsets, hlast⟩

theorem loadDivisors (t : AreaType) {s : σ} {s' : τ} (hs : R s s') :
    Option.Rel Ledger.SameMap (source.loadDivisors r t s).1 (other.loadDivisors r t s').1 ∧
      R (source.loadDivisors r t s).2 (other.loadDivisors r t s').2 := by
  unfold Source.loadDivisors
  cases r.divideBy with
  | none => exact ⟨.none, hs⟩
  | some c => exact ⟨.some (h.sameMap r.release t c hs), h.related r.release t c hs⟩

theorem metricSets {s : σ} {s' : τ} (hs : R s s') :
    List.Forall₂ MetricSet.SameMaps (source.metricSets r s) (other.metricSets r s') := by
  unfold Source.metricSets
  induction r.areaTypes generalizing s s' with
  | nil => exact .nil
  | cons t ts ih =>
    obtain ⟨hd, hs⟩ := h.loadDivisors r t hs
    obtain ⟨hsets, hs⟩ := h.loadCategories r t hd r.categories hs
    exact List.rel_append hsets (ih hs)

end Source.SameMaps

/-- Maps that are walked in any order hold the same values. -/
theorem Arrangement.sameMap (x y : Arrangement) (m : Ledger) :
    (x.entries m).SameMap (y.entries m) :=
  ⟨x.nodup m, Keyed.perm_of_get?_eq (x.nodup m) (y.nodup m) fun area =>
    (x.get?_eq m area).trans (y.get?_eq m area).symm⟩

/-- A reliable source loads the same values into maps that are walked in any order. -/
theorem Source.Reliable.sameMaps_arranged {σ : Type} {source : Source σ} (h : source.Reliable) :
    source.arranged.SameMaps source fun s s' => s.1 = s' where
  reliable :=
    { fault_eq := fun v t c s => h.fault_eq v t c s.1
      nodup := fun _ _ _ s => (s.2 0).nodup _ }
  other_reliable := h
  get?_eq := by
    rintro v t c s _ rfl area
    exact (s.2 0).get?_eq _ area
  related := by
    rintro v t c s _ rfl
    rfl

/-! ### Results that agree -/

/-- The errors name the same area type and the same category. -/
def QueryError.SameSet (e f : QueryError) : Prop :=
  ∃ t category, e.Names t category ∧ f.Names t category

/-- The classes have the same upper bounds, and numerically equal extremes. -/
structure ClassBounds.Agrees (x y : ClassBounds) : Prop where
  bounds : x.bounds = y.bounds
  least : (x.least == y.least) = true
  greatest : (x.greatest == y.greatest) = true

namespace Breaks

/-- The numbers under a key are the same, or numerically equal if they are extremes. -/
def NumbersAgree (key : String) (xs ys : List Float) : Prop :=
  xs = ys ∨ (∃ t, key = extremesKey t) ∧ List.Forall₂ (fun x y => (x == y) = true) xs ys

/-- The tables have the same categories with the same keys, and the numbers under them agree. -/
structure AgreesWith (b c : Breaks) : Prop where
  categories : ∀ category, (b.get? category).isSome = (c.get? category).isSome
  numbers : ∀ category key,
    Option.Rel (NumbersAgree key) (b.numbers? category key) (c.numbers? category key)

theorem agreesWith_nil : AgreesWith [] [] := ⟨fun _ => rfl, fun _ _ => .none⟩

theorem field_agrees (t : AreaType) {x y : ClassBounds} (h : x.Agrees y) (key : String) :
    Option.Rel (NumbersAgree key) (field t x key) (field t y key) := by
  unfold field
  by_cases he : key = extremesKey t
  · rw [if_pos he, if_pos he]
    exact .some (.inr ⟨⟨t, he⟩, .cons h.least (.cons h.greatest .nil)⟩)
  rw [if_neg he, if_neg he]
  by_cases hn : key = t.name
  · rw [if_pos hn, if_pos hn]
    exact .some (.inl h.bounds)
  · rw [if_neg hn, if_neg hn]
    exact .none

theorem rel_or {α : Type} {S : α → α → Prop} {x x' y y' : Option α} (hx : Option.Rel S x x')
    (hy : Option.Rel S y y') : Option.Rel S (x.or y) (x'.or y') := by
  cases hx with
  | some h => exact .some h
  | none => simpa using hy

/-- Agreeing classes are recorded in agreeing tables. -/
theorem AgreesWith.recordBounds {b c : Breaks} (h : b.AgreesWith c) (p : AreaType × String)
    {x y : ClassBounds} (hx : x.Agrees y) :
    (b.recordBounds p x).AgreesWith (c.recordBounds p y) := by
  refine ⟨fun category => ?_, fun category key => ?_⟩
  · rw [isSome_get?_recordBounds, isSome_get?_recordBounds, h.categories]
  · rw [numbers?_recordBounds, numbers?_recordBounds]
    by_cases hc : p.2 = category
    · rw [if_pos hc, if_pos hc]
      exact rel_or (field_agrees p.1 hx key) (h.numbers category key)
    · rw [if_neg hc, if_neg hc]
      exact h.numbers category key

end Breaks

/-! ### What becomes of the same values -/

theorem classBounds_alike {xs ys : List Float} (h : xs.Perm ys) (k : ℕ) (t : AreaType)
    (category : String) :
    Outcome.Alike (fun e f => e = f ∧ e.Names t category) ClassBounds.Agrees
      (classBounds xs k t category) (classBounds ys k t category) := by
  obtain ⟨result, hys⟩ := exists_classes? ys k
  have hxs : classes? xs k = some result := (classes?_perm h k).trans hys
  cases result with
  | error e =>
    have herror {zs : List Float} (hzs : classes? zs k = some (.error e)) :
        classBounds zs k t category = .error (.clustering t.name category e) := by
      rw [classBounds, upperBounds, classes, hzs]
      rfl
    rw [herror hxs, herror hys]
    exact .error ⟨rfl, rfl, rfl⟩
  | ok cs =>
    have hok {zs : List Float} (hzs : classes? zs k = some (.ok cs)) :
        (∀ z ∈ zs, z.isFinite = true) ∧ ∃ least greatest, AreExtremes least greatest zs ∧
          classBounds zs k t category = .ok ⟨cs.filterMap List.getLast?, least, greatest⟩ := by
      obtain ⟨-, hall, -, -⟩ := of_classes? hzs
      have hne : zs ≠ [] := by
        rintro rfl
        cases hzs
      obtain ⟨least, greatest, hextremes, hare⟩ := exists_extremes? hne hall
      refine ⟨hall, least, greatest, hare, ?_⟩
      rw [classBounds, upperBounds, classes, hzs, hextremes]
      rfl
    obtain ⟨-, least, greatest, hx, hclassesx⟩ := hok hxs
    obtain ⟨hall, least', greatest', hy, hclassesy⟩ := hok hys
    obtain ⟨hleast, hgreatest⟩ := (hx.perm h).beq hall hy
    rw [hclassesx, hclassesy]
    exact .ok ⟨rfl, hleast, hgreatest⟩

theorem ratios_alike (t : AreaType) (category : String) {n n' d d' : Ledger} (hn : n.SameMap n')
    (hd : d.SameMap d') :
    Outcome.Alike (fun e f => e.IsRatioFault t category ∧ f.IsRatioFault t category) List.Perm
      (ratios t category n d) (ratios t category n' d') := by
  -- the first bad area may be another one, but there is one in any order or in none
  have hbad : (∀ p ∈ d, (p.2 == 0) = false ∧ p.1 ∈ n.map Prod.fst) ↔
      ∀ p ∈ d', (p.2 == 0) = false ∧ p.1 ∈ n'.map Prod.fst := by
    simp only [hd.perm.mem_iff, (hn.perm.map Prod.fst).mem_iff]
  rcases ratios_cases t category n d with ⟨hall, hok⟩ | ⟨hnot, e, he, hfault⟩
  · have hok' := ((ratios_cases t category n' d').resolve_right fun h => h.1 (hbad.1 hall)).2
    rw [hok, hok']
    simp only [hn.get?_eq]
    exact .ok (hd.perm.filterMap _)
  · obtain ⟨-, f, hf, hfault'⟩ :=
      (ratios_cases t category n' d').resolve_left fun h => hnot (hbad.2 h.1)
    rw [he, hf]
    exact .error ⟨hfault, hfault'⟩

namespace MetricSet

theorem verdict_alike (k : ℕ) {m n : MetricSet} (h : m.SameMaps n) :
    Outcome.Alike QueryError.SameSet (Option.Rel ClassBounds.Agrees) (m.verdict k)
      (n.verdict k) := by
  obtain ⟨t, category, numerator, denominator⟩ := m
  obtain ⟨t', category', numerator', denominator'⟩ := n
  obtain ⟨rfl, rfl, hn, hd⟩ := h
  dsimp only at hn hd
  have hbounds {xs ys : List Float} (h : xs.Perm ys) :
      Outcome.Alike QueryError.SameSet (Option.Rel ClassBounds.Agrees)
        ((classBounds xs k t category).map some) ((classBounds ys k t category).map some) :=
    ((classBounds_alike h k t category).mono (fun e f ⟨hef, he⟩ => ⟨t, category, he, hef ▸ he⟩)
      fun _ _ => id).map fun _ _ => .some
  unfold verdict
  cases hd with
  | none =>
    dsimp only
    rw [hn.isEmpty_eq]
    split
    · exact .ok .none
    · exact hbounds hn.values_perm
  | @some d d' hd =>
    dsimp only
    rw [hd.isEmpty_eq]
    split
    · exact .ok .none
    · have hlength : (numerator.isEmpty = true ∨ numerator.length ≠ d.length) ↔
          (numerator'.isEmpty = true ∨ numerator'.length ≠ d'.length) := by
        rw [hn.isEmpty_eq, hn.perm.length_eq, hd.perm.length_eq]
      refine Outcome.Alike.guard hlength ⟨t, category, ⟨rfl, rfl⟩, rfl, rfl⟩ fun _ => ?_
      rcases (ratios_alike t category hn hd).exists_eq with
        ⟨xs, ys, hxs, hys, h⟩ | ⟨e, f, he, hf, h⟩
      · rw [hxs, hys]
        exact hbounds h
      · rw [he, hf]
        exact .error ⟨t, category, h.1.names, h.2.names⟩

/-- If one of the sets has classes, so has the other. -/
theorem SameMaps.exists_verdict {k : ℕ} {m n : MetricSet} (h : m.SameMaps n) {x : ClassBounds}
    (hx : m.verdict k = .ok (some x)) : ∃ y, n.verdict k = .ok (some y) := by
  have halike := verdict_alike k h
  rw [hx] at halike
  generalize n.verdict k = verdict at halike ⊢
  rcases halike with ⟨⟨⟩⟩
  exact ⟨_, rfl⟩

theorem walk_alike (k : ℕ) {ms ns : List MetricSet} (h : List.Forall₂ SameMaps ms ns)
    {b c : Breaks} (hb : b.AgreesWith c) :
    Outcome.Alike QueryError.SameSet (Option.Rel Breaks.AgreesWith) (walk k b ms)
      (walk k c ns) := by
  induction h generalizing b c with
  | nil => exact .ok (.some hb)
  | @cons m n ms ns hm _ ih =>
    have hpair : m.pair = n.pair := congrArg₂ Prod.mk hm.areaType hm.category
    rw [walk, walk, ← hpair]
    rcases (verdict_alike k hm).exists_eq with ⟨x, y, hx, hy, h⟩ | ⟨e, f, he, hf, h⟩
    · rw [hx, hy]
      cases h with
      | none => exact .ok .none
      | some h => exact ih (hb.recordBounds m.pair h)
    · rw [he, hf]
      exact .error h

end MetricSet

/-- **The order of rows is not seen in a classification.** With sources that never fail and load
the same values of the same areas in any order, a request fails with both or succeeds with both. In
the first case the errors name the same area type and category; in the second the tables have the
same keys, the same upper bounds, and numerically equal extremes. -/
theorem row_order_is_invisible {σ τ : Type} {source : Source σ} {other : Source τ}
    {R : σ → τ → Prop} (h : source.SameMaps other R) (r : BreaksRequest) {w : Bench σ}
    {w' : Bench τ} (hw : R w.source w'.source) :
    Outcome.Alike QueryError.SameSet Breaks.AgreesWith (classifyWith source r w).1
      (classifyWith other r w').1 := by
  rw [classifyWith_eq_walk h.reliable.toNeverFails,
    classifyWith_eq_walk h.other_reliable.toNeverFails]
  refine (MetricSet.walk_alike r.classes (h.metricSets r hw) Breaks.agreesWith_nil).map ?_
  intro b c hbc
  cases hbc with
  | none => exact Breaks.agreesWith_nil
  | some hbc => exact hbc

/-- Two areas with zeros of either sign, whose extremes depend on which comes first. -/
theorem row_order_is_invisible_of_zeros :
    let rows : Ledger := [("A", 0), ("B", -0)]
    let source := Source.ofRows fun _ _ _ => rows
    let other := Source.ofRows fun _ _ _ => rows.reverse
    let r : BreaksRequest := ⟨{}, ["C"], [.district], 1, none⟩
    source.SameMaps other (fun _ _ => True) ∧
      extremes? rows.values ≠ extremes? (Ledger.values rows.reverse) ∧
      Outcome.Alike QueryError.SameSet Breaks.AgreesWith (classifyWith source r ⟨{}, ()⟩).1
        (classifyWith other r ⟨{}, ()⟩).1 := by
  intro rows source other r
  have hsame : source.SameMaps other fun _ _ => True :=
    { reliable := reliable_ofRows _
      other_reliable := reliable_ofRows _
      get?_eq := fun v t c s _ _ =>
        Keyed.get?_eq_of_perm (List.Perm.swap ("B", (-0 : Float)) ("A", 0) [])
          ((reliable_ofRows _).nodup v t c s)
      related := fun _ _ _ _ _ _ => trivial }
  have hzeros : extremes? rows.values ≠ extremes? (Ledger.values rows.reverse) := by
    have hfirst : extremes? rows.values = some (0, 0) := by rfl
    have hsecond : extremes? (Ledger.values rows.reverse) = some (-0, -0) := by rfl
    rw [hfirst, hsecond]
    decide
  exact ⟨hsame, hzeros, row_order_is_invisible hsame r trivial⟩

end Choropleth
