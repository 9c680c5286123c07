import NotebookTidy.Batch.Outcome
import NotebookTidy.FileSystem.Action

/-!
# Tasks

Formatting talks to the world in five ways only: it asks the formatter, asks whether the run has
been cancelled, acts on files, and announces outcomes; the world in turn may be interrupted by
the user.  A `Task` is a program that does so and in the end has a result.  It is a tree: each
node says what is done next and how the program goes on with each possible answer.

A task can be carried out in two ways.  `Task.run` carries it out alone, against a formatter.
`Task.Step` is one step of it in a world where more can happen: the user may interrupt at any
moment, and an action on files may fail for a reason that no file system shows.  Since a task is
data, the steps of many tasks can be put together in any order.
-/

namespace NotebookTidy

/-- A program that talks to the world, with a result. -/
inductive Task (α : Type) where
  /-- The end of the program. -/
  | done (result : α)
  /-- The formatter is asked. -/
  | ask (call : Call) (next : Formatted → Task α)
  /-- Has the run been cancelled? -/
  | poll (next : Bool → Task α)
  /-- An action on files, with an answer of its own kind. -/
  | disk (action : DiskAction) (next : Except IoFault action.Answer → Task α)
  /-- An outcome is announced. -/
  | announce (outcome : Outcome) (next : Task α)

/-- What tasks talk to. -/
structure World where
  /-- The file system. -/
  disk : FileSystem
  /-- What the formatter was asked, the latest first. -/
  calls : List Call
  /-- How often the user interrupted. -/
  interrupts : Nat
  /-- The outcomes announced, the latest first. -/
  announced : List Outcome
  /-- How many actions on files failed for a reason that no file system shows. -/
  mishaps : Nat

namespace World

/-- A world in which nothing has happened. -/
def start (disk : FileSystem) : World := ⟨disk, [], 0, [], 0⟩

/-- The run has been cancelled: the user interrupted it, once at least. -/
def cancelled (w : World) : Bool := 0 < w.interrupts

/-- The world after a formatter's answer. -/
def asked (w : World) (call : Call) (answer : Answer) : World :=
  { w with calls := call :: w.calls, interrupts := w.interrupts + answer.interrupts }

/-- The world after an interruption. -/
def interrupted (w : World) : World := { w with interrupts := w.interrupts + 1 }

/-- The world after an action on files that failed for no reason in it. -/
def struck (w : World) : World := { w with mishaps := w.mishaps + 1 }

/-- The answer to an action on files, and the world after it. -/
def perform (w : World) (action : DiskAction) : Except IoFault action.Answer × World :=
  match w.disk.perform action with
  | .ok (disk, answer) => (.ok answer, { w with disk := disk })
  | .error fault => (.error fault, w)

/-- The world after an announcement. -/
def heard (w : World) (outcome : Outcome) : World :=
  { w with announced := outcome :: w.announced }

end World

namespace Task

/-- A task and then another one, made of its result. -/
protected def bind {α β : Type} : Task α → (α → Task β) → Task β
  | .done a, f => f a
  | .ask call next, f => .ask call fun formatted => (next formatted).bind f
  | .poll next, f => .poll fun cancelled => (next cancelled).bind f
  | .disk action next, f => .disk action fun answer => (next answer).bind f
  | .announce outcome next, f => .announce outcome (next.bind f)

instance : Monad Task where
  pure := .done
  bind := Task.bind

instance {α : Type} [Inhabited α] : Inhabited (Task α) := ⟨.done default⟩

/-- The formatter's answer to a request. -/
def request (call : Call) : Task Formatted := .ask call .done

/-- Whether the run has been cancelled. -/
def isCancelled : Task Bool := .poll .done

/-- An action on files. -/
def change (action : DiskAction) : Task (Except IoFault action.Answer) := .disk action .done

/-- An announcement. -/
def tell (outcome : Outcome) : Task Unit := .announce outcome (.done ())

@[simp] theorem done_bind {α β : Type} (a : α) (f : α → Task β) : (Task.done a).bind f = f a := rfl

theorem bind_done {α : Type} (t : Task α) : t.bind .done = t := by
  induction t with
  | done => rfl
  | ask call next ih => simp [Task.bind, ih]
  | poll next ih => simp [Task.bind, ih]
  | disk action next ih => simp [Task.bind, ih]
  | announce outcome next ih => simp [Task.bind, ih]

theorem bind_assoc {α β γ : Type} (t : Task α) (f : α → Task β) (g : β → Task γ) :
    (t.bind f).bind g = t.bind fun a => (f a).bind g := by
  induction t with
  | done => rfl
  | ask call next ih => simp [Task.bind, ih]
  | poll next ih => simp [Task.bind, ih]
  | disk action next ih => simp [Task.bind, ih]
  | announce outcome next ih => simp [Task.bind, ih]

/-! ## Carrying out a task alone -/

/-- **A task carried out against a formatter**: its result, and the world afterwards. -/
def run {α : Type} (formatter : Formatter) : Task α → World → α × World
  | .done a, w => (a, w)
  | .ask call next, w =>
    let answer := formatter w.calls call
    (next answer.result).run formatter (w.asked call answer)
  | .poll next, w => (next w.cancelled).run formatter w
  | .disk action next, w =>
    let (answer, w) := w.perform action
    (next answer).run formatter w
  | .announce outcome next, w => next.run formatter (w.heard outcome)

/-- A task carried out as long as there are no more than so many interruptions; one more and it
is abandoned at once, wherever it stands. -/
def runWhile {α : Type} (formatter : Formatter) (patience : Nat) :
    Task α → World → Option α × World
  | .done a, w => (some a, w)
  | .ask call next, w =>
    let answer := formatter w.calls call
    let w := w.asked call answer
    if w.interrupts ≤ patience then (next answer.result).runWhile formatter patience w
    else (none, w)
  | .poll next, w => (next w.cancelled).runWhile formatter patience w
  | .disk action next, w =>
    let (answer, w) := w.perform action
    (next answer).runWhile formatter patience w
  | .announce outcome next, w => next.runWhile formatter patience (w.heard outcome)

/-- **Carrying out two tasks one after the other** is carrying out both, the second in the world
that the first leaves. -/
theorem run_bind {α β : Type} (formatter : Formatter) (t : Task α) (f : α → Task β) (w : World) :
    (t.bind f).run formatter w =
      (f (t.run formatter w).1).run formatter (t.run formatter w).2 := by
  induction t generalizing w with
  | done => rfl
  | ask call next ih => simp [Task.bind, run, ih]
  | poll next ih => simp [Task.bind, run, ih]
  | disk action next ih => simp [Task.bind, run, ih]
  | announce outcome next ih => simp [Task.bind, run, ih]

/-! ## One step of a task in an unruly world -/

/-- The action may fail for reasons beyond the file system; only removing never does. -/
def mayFail : DiskAction → Bool
  | .remove _ => false
  | _ => true

/-- **One step of a task**, against a formatter.  The last two steps are the world's own: an action
on files fails although nothing in the file system speaks against it, and the user interrupts. -/
inductive Step {α : Type} (formatter : Formatter) : Task α × World → Task α × World → Prop where
  | ask (call : Call) (next : Formatted → Task α) (w : World) :
    Step formatter (.ask call next, w)
      (next (formatter w.calls call).result, w.asked call (formatter w.calls call))
  | poll (next : Bool → Task α) (w : World) :
    Step formatter (.poll next, w) (next w.cancelled, w)
  | disk (action : DiskAction) (next : Except IoFault action.Answer → Task α) (w : World) :
    Step formatter (.disk action next, w) (next (w.perform action).1, (w.perform action).2)
  | announce (outcome : Outcome) (next : Task α) (w : World) :
    Step formatter (.announce outcome next, w) (next, w.heard outcome)
  | mishap (action : DiskAction) (next : Except IoFault action.Answer → Task α) (w : World)
    (fault : IoFault) (h : mayFail action = true) :
    Step formatter (.disk action next, w) (next (.error fault), w.struck)
  | interrupt (t : Task α) (w : World) : Step formatter (t, w) (t, w.interrupted)

/-- Any number of steps of a task. -/
inductive Steps {α : Type} (formatter : Formatter) : Task α × World → Task α × World → Prop where
  | refl (s : Task α × World) : Steps formatter s s
  | head {s t u : Task α × World} (first : Step formatter s t) (rest : Steps formatter t u) :
    Steps formatter s u

end Task
end NotebookTidy
