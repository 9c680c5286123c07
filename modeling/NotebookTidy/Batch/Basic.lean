import NotebookTidy.Batch.Summary
import NotebookTidy.Notebook.File

/-!
# Many notebooks in one run

All notebooks of a run are read before any of them is processed, so that one that cannot be read
ends the run with nothing done.  Then each is processed by a task of its own (`Batch.task`), which
has no outcome if the run was cancelled before or meanwhile.

`Batch.run` carries out these tasks one after the other.  Which runs there are when several tasks
are under way at once is said in `NotebookTidy.Batch.Schedule`.
-/

namespace NotebookTidy

/-- What is asked of a run. -/
structure BatchPlan where
  /-- What is to be done with the notebooks. -/
  action : Action
  /-- How many notebooks may be under way at once. -/
  workers : Nat
  /-- How code is to be formatted. -/
  mode : Mode
deriving Repr, DecidableEq

namespace Batch

/-- An outcome is announced and counts, unless it is that the run was cancelled. -/
def report : Outcome → Task (Option Outcome)
  | .error .cancelled => pure none
  | outcome => do
    Task.tell outcome
    pure (some outcome)

/-- The task of one file: it is processed and its outcome reported, unless the run was cancelled. -/
def task (plan : BatchPlan) (file : StoredNotebook) : Task (Option Outcome) := do
  if ← Task.isCancelled then pure none
  else report (← file.process plan.action plan.mode)

/-- The tasks of files one after the other. -/
def inOrder (plan : BatchPlan) : List StoredNotebook → Task (List (Option Outcome))
  | [] => pure []
  | file :: rest => do
    let outcome ← task plan file
    let outcomes ← inOrder plan rest
    pure (outcome :: outcomes)

/-- The result of a run whose tasks have ended with these results in this world. -/
def result (results : List (Option Outcome)) (w : World) : BatchResult :=
  ⟨results.filterMap id, w.cancelled⟩

/-- **A run over the files at these paths**, one after the other. -/
def run (formatter : Formatter) (plan : BatchPlan) (paths : List Text) (w : World) :
    Except RunError BatchResult × World :=
  match StoredNotebook.loadAll w.disk paths with
  | .error error => (.error error, w)
  | .ok files =>
    let (results, w) := (inOrder plan files).run formatter w
    (.ok (result results w), w)

end Batch
end NotebookTidy
