import NotebookTidy.Batch.Basic

/-!
# Runs with several workers

With several workers the tasks of a run take their steps in no fixed order.  A **pool** is the
tasks of a run as far as they have got, in the order of the files.  A step of the pool is a step
of one of its tasks (`Pool.Step`), and a schedule is any number of such steps.

Which task may move depends on the number of workers.  A single worker takes the files in order,
so a task moves only when those before it have ended.  Several workers have at most so many tasks
under way, but take new ones in any order; a task that has not moved yet is recognised by the
list of those that have.

`Runs` says what a run can lead to.  In every schedule the user may interrupt at any moment, and
`Reaches` also speaks of the worlds in the middle of a run.
-/

namespace NotebookTidy
namespace Batch

/-- Tasks that share a world. -/
structure Pool where
  /-- What is left of each task, in the order of the files. -/
  tasks : List (Task (Option Outcome))
  /-- Which tasks have begun. -/
  begun : List Bool
  /-- The world. -/
  world : World

namespace Pool

/-- The result of a task that has ended. -/
def result? : Task (Option Outcome) → Option (Option Outcome)
  | .done result => some result
  | _ => none

/-- The task has ended. -/
def hasEnded (t : Task (Option Outcome)) : Bool := (result? t).isSome

/-- The pool of files before anything has been done. -/
def start (plan : BatchPlan) (files : List StoredNotebook) (w : World) : Pool :=
  ⟨files.map (task plan), files.map fun _ => false, w⟩

/-- The task at a position has begun and not ended. -/
def underWay (p : Pool) (position : Nat) : Bool :=
  p.begun[position]? = some true &&
    (match p.tasks[position]? with
      | some t => !hasEnded t
      | none => false)

/-- **Who may move.**  A single worker moves the first task that has not ended; several workers
move a task that is under way, or begin another one if fewer than all workers are busy. -/
def MayMove (workers : Nat) (p : Pool) (position : Nat) : Prop :=
  if workers ≤ 1 then ∀ t ∈ p.tasks.take position, hasEnded t = true
  else p.underWay position = true ∨
    ((List.range p.tasks.length).filter p.underWay).length < workers

/-- **One step of a pool**: one task moves, or the user interrupts. -/
inductive Step (formatter : Formatter) (workers : Nat) : Pool → Pool → Prop where
  | move (p : Pool) (position : Nat) (t t' : Task (Option Outcome)) (w : World)
    (at_position : p.tasks[position]? = some t) (may_move : MayMove workers p position)
    (step : Task.Step formatter (t, p.world) (t', w)) :
    Step formatter workers p ⟨p.tasks.set position t', p.begun.set position true, w⟩
  | interrupt (p : Pool) :
    Step formatter workers p { p with world := p.world.interrupted }

/-- Any number of steps of a pool. -/
inductive Steps (formatter : Formatter) (workers : Nat) : Pool → Pool → Prop where
  | refl (p : Pool) : Steps formatter workers p p
  | head {p q r : Pool} (first : Step formatter workers p q)
    (rest : Steps formatter workers q r) : Steps formatter workers p r

end Pool

/-- The pool of a run over files can come to this. -/
def Reaches (formatter : Formatter) (plan : BatchPlan) (files : List StoredNotebook)
    (w : World) (p : Pool) : Prop :=
  Pool.Steps formatter plan.workers (Pool.start plan files w) p

/-- **What a run can lead to**: all tasks have ended, and the result is made of their results and
of the world at that moment. -/
def Runs (formatter : Formatter) (plan : BatchPlan) (paths : List Text) (w : World)
    (r : BatchResult) (after : World) : Prop :=
  ∃ files results, StoredNotebook.loadAll w.disk paths = .ok files ∧
    Reaches formatter plan files w ⟨results.map .done, files.map fun _ => true, after⟩ ∧
    r = result results after

end Batch
end NotebookTidy
