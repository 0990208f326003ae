import Choropleth.Breaks.Classify

/-!
# The order of ledgers

The ledgers of a scratch are hash maps. A map is walked in an order of its own, which hangs on the
secret of its hash function, on its room and on what it has held before. Clearing a map keeps all
three, so that the maps of a scratch that is used again are walked in other orders than those of a
fresh one; and the order is seen, as it decides which of several areas an error names.

* `Arrangement`: an order in which maps are walked;
* `Source.arranged`: a source into maps that are walked in such orders;
* `ArrangedScratch`: a scratch with the orders of its maps;
* `classifyArranged`: the breaks of a request.
-/

namespace Choropleth

/-- An order in which maps are walked: every area is met once, with its value. -/
structure Arrangement where
  entries : Ledger → Ledger
  nodup : ∀ m, ((entries m).map Prod.fst).Nodup
  get?_eq : ∀ m area, (entries m).get? area = m.get? area

/-- The order in which the areas came. -/
instance : Inhabited Arrangement :=
  ⟨⟨Keyed.distinct, Keyed.nodup_keys_distinct, Keyed.get?_distinct⟩⟩

/-- The orders of the maps that are filled one after another. -/
abbrev Arrangements := Nat → Arrangement

namespace Arrangements

/-- The maps are walked in the order in which the areas came. -/
def asTheyCome : Arrangements := fun _ => default

/-- The orders after that of the next map. -/
def later (o : Arrangements) : Arrangements := fun n => o (n + 1)

end Arrangements

/-- The source into maps that are walked in some orders. -/
def Source.arranged {σ : Type} (source : Source σ) : Source (σ × Arrangements) where
  load release t category ledger s :=
    let (loaded, s') := source.load release t category ledger s.1
    ({ loaded with ledger := (s.2 0).entries loaded.ledger }, s', s.2.later)

/-- A scratch, and the orders in which its maps will be walked. -/
structure ArrangedScratch where
  scratch : Scratch := {}
  arrangements : Arrangements := .asTheyCome

/-- The breaks of a request, with the scratch and the state of the source after it. -/
def classifyArranged {σ : Type} (source : Source σ) (r : BreaksRequest) (w : ArrangedScratch)
    (s : σ) : Except QueryError Breaks × ArrangedScratch × σ :=
  let (result, bench) := classifyWith source.arranged r ⟨w.scratch, s, w.arrangements⟩
  (result, ⟨bench.scratch, bench.source.2⟩, bench.source.1)

end Choropleth
