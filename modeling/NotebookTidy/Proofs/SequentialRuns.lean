import NotebookTidy.Batch.Schedule
import NotebookTidy.Proofs.Stops

/-!
# One file after the other

`Batch.run` carries out the tasks of a run in the order of the files, each to its end.  Whatever
the number of workers, they may take their turns like that: so what it computes is one of the
results that the run can lead to (`runs_of_run`).
-/

namespace NotebookTidy
namespace Batch
namespace Pool

variable {formatter : Formatter} {workers : Nat}

theorem Steps.trans {p q r : Pool} (h : Steps formatter workers p q)
    (k : Steps formatter workers q r) : Steps formatter workers p r := by
  induction h with
  | refl p => exact k
  | head first rest ih => exact .head first (ih k)

/-- **Whose turn it is**: a task moves while all before it have ended and none after it has
begun. -/
theorem mayMove_of_turn {ended : List (Task (Option Outcome))} {t : Task (Option Outcome)}
    {waiting : List (Task (Option Outcome))} {begun : List Bool} {w : World}
    (hended : ∀ s ∈ ended, hasEnded s = true) (ht : hasEnded t = false)
    (hwaiting : ∀ position, ended.length < position → begun[position]? ≠ some true) :
    MayMove workers ⟨ended ++ t :: waiting, begun, w⟩ ended.length := by
  unfold MayMove
  split
  · intro s hs
    rw [List.take_left] at hs
    exact hended s hs
  · next hworkers =>
    by_cases hbegun : begun[ended.length]? = some true
    · left
      simp [underWay, hbegun, ht]
    · -- nobody is under way, so there is a worker to spare
      right
      have hnone : (List.range (ended ++ t :: waiting).length).filter
          (underWay ⟨ended ++ t :: waiting, begun, w⟩) = [] := by
        rw [List.filter_eq_nil_iff]
        intro position _ hunder
        simp only [underWay, Bool.and_eq_true, decide_eq_true_eq] at hunder
        rcases Nat.lt_trichotomy position ended.length with hlt | heq | hgt
        · rw [List.getElem?_append_left hlt, List.getElem?_eq_getElem hlt] at hunder
          simp [hended _ (List.getElem_mem hlt)] at hunder
        · exact hbegun (heq ▸ hunder.1)
        · exact hwaiting position hgt hunder.1
      rw [hnone]
      simp only [List.length_nil]
      omega

variable (formatter workers) {ended : List (Task (Option Outcome))} {begun : List Bool}
  (waiting : List (Task (Option Outcome)))

/-- One step of the task whose turn it is. -/
theorem steps_of_step {t u : Task (Option Outcome)} {w v : World}
    (hended : ∀ s ∈ ended, hasEnded s = true) (ht : hasEnded t = false)
    (hwaiting : ∀ position, ended.length < position → begun[position]? ≠ some true)
    (h : Task.Step formatter (t, w) (u, v)) :
    Steps formatter workers ⟨ended ++ t :: waiting, begun, w⟩
      ⟨ended ++ u :: waiting, begun.set ended.length true, v⟩ := by
  have hturn : MayMove workers ⟨ended ++ t :: waiting, begun, w⟩ ended.length :=
    mayMove_of_turn hended ht hwaiting
  have hmove := Step.move _ ended.length t u v (by simp) hturn h
  rw [List.set_append_right _ _ (Nat.le_refl _), Nat.sub_self, List.set_cons_zero] at hmove
  exact .head hmove (.refl _)

/-- **The task whose turn it is goes on to its end.** -/
theorem steps_of_turn (hended : ∀ s ∈ ended, hasEnded s = true)
    (hbegun : begun.set ended.length true = begun)
    (hwaiting : ∀ position, ended.length < position → begun[position]? ≠ some true)
    (t : Task (Option Outcome)) (w : World) :
    Steps formatter workers ⟨ended ++ t :: waiting, begun, w⟩
      ⟨ended ++ .done (t.run formatter w).1 :: waiting, begun, (t.run formatter w).2⟩ := by
  have hstep {s u : Task (Option Outcome)} {w v : World} (hs : hasEnded s = false)
      (h : Task.Step formatter (s, w) (u, v)) :
      Steps formatter workers ⟨ended ++ s :: waiting, begun, w⟩
        ⟨ended ++ u :: waiting, begun, v⟩ := by
    have hsteps := steps_of_step formatter workers waiting hended hs hwaiting h
    rwa [hbegun] at hsteps
  induction t generalizing w with
  | done result => exact .refl _
  | ask call next ih => exact (hstep rfl (.ask call next w)).trans (ih _ _)
  | poll next ih => exact (hstep rfl (.poll next w)).trans (ih _ _)
  | disk action next ih => exact (hstep rfl (.disk action next w)).trans (ih _ _)
  | announce outcome next ih => exact (hstep rfl (.announce outcome next w)).trans (ih _)

/-- **A task begins and goes on to its end**; it begins by asking whether the run has been
cancelled. -/
theorem steps_of_poll (hended : ∀ s ∈ ended, hasEnded s = true)
    (hwaiting : ∀ position, ended.length < position → begun[position]? ≠ some true)
    (next : Bool → Task (Option Outcome)) (w : World) :
    Steps formatter workers ⟨ended ++ .poll next :: waiting, begun, w⟩
      ⟨ended ++ .done ((Task.poll next).run formatter w).1 :: waiting,
        begun.set ended.length true, ((Task.poll next).run formatter w).2⟩ := by
  have hbegin := steps_of_step formatter workers waiting hended rfl hwaiting (.poll next w)
  refine hbegin.trans (steps_of_turn formatter workers waiting hended (List.set_set _) ?_
    (next w.cancelled) w)
  intro position hposition
  rw [List.getElem?_set_ne (Nat.ne_of_lt hposition)]
  exact hwaiting position hposition

end Pool

/-- Files one after the other: the first one's task, and then the others'. -/
theorem run_inOrder_cons (formatter : Formatter) (plan : BatchPlan) (file : StoredNotebook)
    (rest : List StoredNotebook) (w : World) :
    (inOrder plan (file :: rest)).run formatter w =
      (((task plan file).run formatter w).1 ::
          ((inOrder plan rest).run formatter ((task plan file).run formatter w).2).1,
        ((inOrder plan rest).run formatter ((task plan file).run formatter w).2).2) := by
  change ((task plan file).bind fun outcome => (inOrder plan rest).bind fun outcomes =>
    .done (outcome :: outcomes)).run formatter w = _
  rw [Task.run_bind, Task.run_bind]
  rfl

/-- Some files, and then others. -/
theorem run_inOrder_append (formatter : Formatter) (plan : BatchPlan)
    (first rest : List StoredNotebook) (w : World) :
    (inOrder plan (first ++ rest)).run formatter w =
      (((inOrder plan first).run formatter w).1 ++
          ((inOrder plan rest).run formatter ((inOrder plan first).run formatter w).2).1,
        ((inOrder plan rest).run formatter ((inOrder plan first).run formatter w).2).2) := by
  induction first generalizing w with
  | nil => rfl
  | cons file first ih =>
    rw [List.cons_append, run_inOrder_cons, ih, run_inOrder_cons]
    rfl

/-- Tasks that wait for their turn, carried out one after the other. -/
theorem steps_inOrder (formatter : Formatter) (plan : BatchPlan) (workers : Nat)
    (files : List StoredNotebook) (ended : List (Option Outcome)) (w : World) :
    Pool.Steps formatter workers
      ⟨ended.map .done ++ files.map (task plan),
        ended.map (fun _ => true) ++ files.map fun _ => false, w⟩
      ⟨(ended ++ ((inOrder plan files).run formatter w).1).map .done,
        ended.map (fun _ => true) ++ files.map fun _ => true,
        ((inOrder plan files).run formatter w).2⟩ := by
  induction files generalizing ended w with
  | nil =>
    simp only [List.map_nil, List.append_nil]
    have hnil : (inOrder plan []).run formatter w = ([], w) := rfl
    rw [hnil, List.append_nil]
    exact .refl _
  | cons file rest ih =>
    have hended : ∀ s ∈ ended.map (Task.done (α := Option Outcome)), Pool.hasEnded s = true := by
      intro s hs
      obtain ⟨result, _, rfl⟩ := List.mem_map.mp hs
      rfl
    obtain ⟨next, hnext⟩ : ∃ next, task plan file = .poll next := ⟨_, task_eq plan file⟩
    obtain ⟨outcome, w₁, hrun⟩ :
        ∃ outcome w₁, (task plan file).run formatter w = (outcome, w₁) := ⟨_, _, rfl⟩
    have hrest := run_inOrder_cons formatter plan file rest w
    rw [hrun] at hrest
    have hwaiting : ∀ position, (ended.map (Task.done (α := Option Outcome))).length < position →
        (ended.map (fun _ => true) ++ (file :: rest).map fun _ => false)[position]? ≠
          some true := by
      intro position hposition
      rw [List.getElem?_append_right (by simp at hposition ⊢; omega), List.getElem?_map]
      simp
    have hset : (ended.map (fun _ => true) ++ (file :: rest).map fun _ => false).set
        (ended.map (Task.done (α := Option Outcome))).length true =
          ended.map (fun _ => true) ++ true :: rest.map fun _ => false := by
      rw [List.length_map, List.set_append_right _ _ (by simp), List.length_map, Nat.sub_self]
      rfl
    -- the first task goes on to its end, then the others have one more task before them
    have hfirst := Pool.steps_of_poll formatter workers (rest.map (task plan)) hended
      hwaiting next w
    have hothers := ih (ended ++ [outcome]) w₁
    rw [hset, ← hnext, hrun] at hfirst
    rw [hrest]
    simp only [List.map_append, List.map_cons, List.map_nil, List.append_assoc,
      List.cons_append, List.nil_append] at hfirst hothers ⊢
    exact hfirst.trans hothers

/-- **Taking the files one after the other is one of the ways a run can go.** -/
theorem runs_of_run {formatter : Formatter} {plan : BatchPlan} {paths : List Text} {w after : World}
    {r : BatchResult} (h : run formatter plan paths w = (.ok r, after)) :
    Runs formatter plan paths w r after := by
  unfold run at h
  split at h
  · cases h
  · next files hload =>
    cases h
    exact ⟨files, _, hload, steps_inOrder formatter plan plan.workers files [] w, rfl⟩

end Batch
end NotebookTidy
