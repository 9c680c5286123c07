import NotebookTidy.Proofs.CellTasks

/-!
# Runs that nobody interrupts

A task that only asks a steady formatter and whether the run has been cancelled has the same result
in every world that is not cancelled, and changes nothing in it but the calls it makes.  What such a
task **yields** is told along its tree.
-/

namespace NotebookTidy

/-- **The task has this result** with a formatter that answers by a function, in every world that
is not cancelled, and it does nothing there but call the formatter. -/
def Task.Yields {α : Type} (answer : Call → Formatted) (t : Task α) (a : α) : Prop :=
  ∀ w : World, w.cancelled = false → ∃ calls, t.run (.ofFunction answer) w = (a, { w with calls })

namespace Task.Yields
variable {α β : Type} {answer : Call → Formatted}

theorem done (a : α) : Yields answer (.done a) a := fun w _ => ⟨w.calls, rfl⟩

theorem ask {call : Call} {next : Formatted → Task α} {a : α}
    (h : Yields answer (next (answer call)) a) : Yields answer (.ask call next) a := by
  intro w hw
  obtain ⟨calls, hrun⟩ := h { w with calls := call :: w.calls } hw
  exact ⟨calls, hrun⟩

theorem poll {next : Bool → Task α} {a : α} (h : Yields answer (next false) a) :
    Yields answer (.poll next) a := by
  intro w hw
  obtain ⟨calls, hrun⟩ := h w hw
  refine ⟨calls, ?_⟩
  rw [run, hw, hrun]

theorem bind {t : Task β} {f : β → Task α} {b : β} {a : α} (ht : Yields answer t b)
    (hf : Yields answer (f b) a) : Yields answer (t.bind f) a := by
  intro w hw
  obtain ⟨calls, hrun⟩ := ht w hw
  obtain ⟨calls', hrun'⟩ := hf { w with calls } hw
  refine ⟨calls', ?_⟩
  rw [run_bind, hrun, hrun']

/-- A task has one result. -/
theorem result_eq {t : Task α} {a : α} (h : Yields answer t a) {w : World}
    (hw : w.cancelled = false) : (t.run (.ofFunction answer) w).1 = a := by
  obtain ⟨calls, hrun⟩ := h w hw
  rw [hrun]

end Task.Yields

/-- The task with notes has this result and these notes afterwards. -/
def Noting.Yields {α : Type} (answer : Call → Formatted) (x : Noting α) (before : Rejections)
    (a : α) (after : Rejections) : Prop :=
  Task.Yields answer (x.start before) (.ok a, after)

namespace Noting.Yields
variable {α β : Type} {answer : Call → Formatted} {before between after : Rejections}

theorem pure (a : α) : Yields answer (pure a) before a before := .done _

theorem bind {x : Noting β} {f : β → Noting α} {b : β} {a : α}
    (hx : Yields answer x before b between) (hf : Yields answer (f b) between a after) :
    Yields answer (x >>= f) before a after := by
  rw [Yields, start_bind]
  exact Task.Yields.bind hx hf

end Noting.Yields
end NotebookTidy
