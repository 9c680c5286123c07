import NotebookTidy.Proofs.SequentialRuns

/-!
# Runs that nothing disturbs

A run is disturbed by what neither its tasks nor the formatter bring about: an action on files that
fails for no reason in the file system, or an interruption that did not come while the formatter
answered.  A single worker that nothing disturbs takes the files one after the other and has no
choice: there is one such run, and `Batch.run` computes it (`runs_undisturbed_iff`).

What is left of the tasks, carried out one after the other, has one result (`Pool.inTurn`), and
every step of a single worker keeps that result or disturbs the run.
-/

namespace NotebookTidy
namespace World

/-- How often the formatter was interrupted while it answered. -/
def raised (formatter : Formatter) : List Call → Nat
  | [] => 0
  | call :: before => raised formatter before + (formatter before call).interrupts

/-- **Nothing has disturbed the run** between a world and a later one: no action on files failed for
no reason in the file system, and all interruptions came while the formatter answered. -/
structure Undisturbed (formatter : Formatter) (w after : World) : Prop where
  /-- No more mishaps. -/
  mishaps_eq : after.mishaps = w.mishaps
  /-- As many more interruptions as came with the answers. -/
  interrupts_eq : after.interrupts + raised formatter w.calls =
    w.interrupts + raised formatter after.calls

/-- Disturbances are never taken back. -/
structure Precedes (formatter : Formatter) (w after : World) : Prop where
  /-- Mishaps stay. -/
  mishaps_le : w.mishaps ≤ after.mishaps
  /-- Interruptions stay, those that came with an answer and others. -/
  interrupts_le : w.interrupts + raised formatter after.calls ≤
    after.interrupts + raised formatter w.calls

variable {formatter : Formatter} {w between after : World}

theorem Undisturbed.refl (w : World) : Undisturbed formatter w w := ⟨rfl, rfl⟩

theorem Undisturbed.trans (h : Undisturbed formatter w between)
    (k : Undisturbed formatter between after) : Undisturbed formatter w after := by
  have hfirst := h.interrupts_eq
  have hsecond := k.interrupts_eq
  exact ⟨k.mishaps_eq.trans h.mishaps_eq, by omega⟩

theorem Undisturbed.precedes (h : Undisturbed formatter w after) : Precedes formatter w after :=
  ⟨Nat.le_of_eq h.mishaps_eq.symm, Nat.le_of_eq h.interrupts_eq.symm⟩

theorem Precedes.trans (h : Precedes formatter w between) (k : Precedes formatter between after) :
    Precedes formatter w after := by
  have hfirst := h.interrupts_le
  have hsecond := k.interrupts_le
  exact ⟨Nat.le_trans h.mishaps_le k.mishaps_le, by omega⟩

/-- If nothing has disturbed a run by its end, nothing had by a moment before. -/
theorem Undisturbed.cut (h : Undisturbed formatter w after) (hfirst : Precedes formatter w between)
    (hsecond : Precedes formatter between after) :
    Undisturbed formatter w between ∧ Undisturbed formatter between after := by
  obtain ⟨hmishaps, hinterrupts⟩ := h
  obtain ⟨hmishaps₁, hinterrupts₁⟩ := hfirst
  obtain ⟨hmishaps₂, hinterrupts₂⟩ := hsecond
  exact ⟨⟨by omega, by omega⟩, ⟨by omega, by omega⟩⟩

theorem undisturbed_asked (w : World) (call : Call) :
    Undisturbed formatter w (w.asked call (formatter w.calls call)) := by
  refine ⟨rfl, ?_⟩
  simp only [asked, raised]
  omega

theorem undisturbed_perform (w : World) (action : DiskAction) :
    Undisturbed formatter w (w.perform action).2 := by
  rw [perform_snd]
  exact ⟨rfl, rfl⟩

end World

namespace Task
variable {α : Type} {formatter : Formatter}

/-- **A task carried out alone** is not disturbed. -/
theorem undisturbed_run (t : Task α) (w : World) :
    w.Undisturbed formatter (t.run formatter w).2 := by
  induction t generalizing w with
  | done a => exact .refl w
  | ask call next ih => exact (w.undisturbed_asked call).trans (ih _ _)
  | poll next ih => exact ih _ w
  | disk action next ih => exact (w.undisturbed_perform action).trans (ih _ _)
  | announce outcome next ih =>
    obtain ⟨hmishaps, hinterrupts⟩ := ih (w.heard outcome)
    exact ⟨hmishaps, hinterrupts⟩

/-- **One step of a task** takes nothing back, and what is left has the result that the task has,
unless the run was disturbed. -/
theorem Step.run_eq {t u : Task α} {w v : World} (h : Step formatter (t, w) (u, v)) :
    w.Precedes formatter v ∧
      (w.Undisturbed formatter v → u.run formatter v = t.run formatter w) := by
  cases h with
  | ask call next => exact ⟨(w.undisturbed_asked call).precedes, fun _ => rfl⟩
  | poll next => exact ⟨(World.Undisturbed.refl w).precedes, fun _ => rfl⟩
  | disk action next => exact ⟨(w.undisturbed_perform action).precedes, fun _ => rfl⟩
  | announce outcome => exact ⟨⟨Nat.le_refl _, Nat.le_refl _⟩, fun _ => rfl⟩
  | mishap action next _ fault h =>
    exact ⟨⟨Nat.le_succ _, Nat.le_refl _⟩,
      fun hcalm => absurd hcalm.mishaps_eq (Nat.succ_ne_self _)⟩
  | interrupt =>
    refine ⟨⟨Nat.le_refl _, Nat.add_le_add_right (Nat.le_succ _) _⟩, fun hcalm => ?_⟩
    exact absurd (Nat.add_right_cancel hcalm.interrupts_eq) (Nat.succ_ne_self _)

end Task

namespace Batch
namespace Pool
variable {formatter : Formatter} {workers : Nat}

/-- What is left of tasks, carried out one after the other. -/
def inTurn (formatter : Formatter) :
    List (Task (Option Outcome)) → World → List (Option Outcome) × World
  | [], w => ([], w)
  | t :: rest, w =>
    let ended := t.run formatter w
    let others := inTurn formatter rest ended.2
    (ended.1 :: others.1, others.2)

theorem inTurn_task (plan : BatchPlan) (files : List StoredNotebook) (w : World) :
    inTurn formatter (files.map (task plan)) w = (inOrder plan files).run formatter w := by
  induction files generalizing w with
  | nil => rfl
  | cons file rest ih =>
    rw [run_inOrder_cons, ← ih]
    rfl

theorem inTurn_done (results : List (Option Outcome)) (w : World) :
    inTurn formatter (results.map .done) w = (results, w) := by
  induction results with
  | nil => rfl
  | cons result rest ih =>
    rw [List.map_cons, inTurn, Task.run, ih]

/-- The task whose turn it is goes on, and all that is left has the result that it had. -/
theorem inTurn_set {tasks : List (Task (Option Outcome))} {position : Nat}
    {t u : Task (Option Outcome)} {w v : World} (hat : tasks[position]? = some t)
    (hended : ∀ s ∈ tasks.take position, hasEnded s = true)
    (hrun : u.run formatter v = t.run formatter w) :
    inTurn formatter (tasks.set position u) v = inTurn formatter tasks w := by
  induction position generalizing tasks with
  | zero =>
    rcases tasks with - | ⟨s, rest⟩
    · cases hat
    · cases hat
      rw [List.set_cons_zero, inTurn, hrun, inTurn]
  | succ position ih =>
    rcases tasks with - | ⟨s, rest⟩
    · cases hat
    · rw [List.take_succ_cons, List.forall_mem_cons] at hended
      obtain ⟨hs, hrest⟩ := hended
      cases s with
      | done result => rw [List.set_cons_succ, inTurn, Task.run, ih hat hrest, inTurn, Task.run]
      | _ => cases hs

/-- **One step of a single worker** takes nothing back, and what is left has the result that it had,
unless the run was disturbed. -/
theorem Step.inTurn_eq {p q : Pool} (hworkers : workers ≤ 1)
    (h : Step formatter workers p q) :
    p.world.Precedes formatter q.world ∧ (p.world.Undisturbed formatter q.world →
      inTurn formatter q.tasks q.world = inTurn formatter p.tasks p.world) := by
  cases h with
  | move position t u v at_position may_move step =>
    obtain ⟨hprecedes, hrun⟩ := step.run_eq
    rw [MayMove, if_pos hworkers] at may_move
    exact ⟨hprecedes, fun hcalm => inTurn_set at_position may_move (hrun hcalm)⟩
  | interrupt =>
    refine ⟨⟨Nat.le_refl _, Nat.add_le_add_right (Nat.le_succ _) _⟩, fun hcalm => ?_⟩
    exact absurd (Nat.add_right_cancel hcalm.interrupts_eq) (Nat.succ_ne_self _)

theorem Steps.inTurn_eq {p q : Pool} (hworkers : workers ≤ 1) (h : Steps formatter workers p q) :
    p.world.Precedes formatter q.world ∧ (p.world.Undisturbed formatter q.world →
      inTurn formatter q.tasks q.world = inTurn formatter p.tasks p.world) := by
  induction h with
  | refl p => exact ⟨(World.Undisturbed.refl _).precedes, fun _ => rfl⟩
  | head first rest ih =>
    obtain ⟨hfirst, hsame⟩ := first.inTurn_eq hworkers
    obtain ⟨hrest, hsame'⟩ := ih
    refine ⟨hfirst.trans hrest, fun hcalm => ?_⟩
    obtain ⟨hcalm, hcalm'⟩ := hcalm.cut hfirst hrest
    exact (hsame' hcalm').trans (hsame hcalm)

end Pool

/-- **With a single worker there is one run that nothing disturbs**: the files one after the
other. -/
theorem runs_undisturbed_iff {formatter : Formatter} {plan : BatchPlan}
    (hworkers : plan.workers ≤ 1) {paths : List Text} {w after : World} {r : BatchResult} :
    Runs formatter plan paths w r after ∧ w.Undisturbed formatter after ↔
      run formatter plan paths w = (.ok r, after) := by
  constructor
  · rintro ⟨⟨files, results, hload, hreaches, rfl⟩, hcalm⟩
    have hturn := (hreaches.inTurn_eq hworkers).2 hcalm
    rw [Pool.inTurn_done, Pool.start, Pool.inTurn_task] at hturn
    rw [run, hload]
    simp only [← hturn]
  · intro h
    refine ⟨runs_of_run h, ?_⟩
    unfold run at h
    split at h
    · cases h
    · next files hload =>
      cases h
      exact Task.undisturbed_run _ w

end Batch
end NotebookTidy
