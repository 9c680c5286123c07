import NotebookTidy.Proofs.EventKinds
import NotebookTidy.Proofs.FilesApart
import NotebookTidy.Proofs.UndisturbedRuns

/-!
# Tasks that are cancelled during a call

A formatter interrupts the run during one call, and not before (`Formatter.RaisesAt`).  The same
formatter without interruptions (`Formatter.calm`) tells what would have been otherwise.  A task
that makes no call as late as that one goes the same way with both (`Task.run_eq_calm`); one that
makes the call finds the run cancelled afterwards (`Task.cancelled_of_call`).

The cells of a notebook ask before each code cell whether the run has been cancelled, and within a
cell nothing asks.  So the cell during which the call is made is finished as it would have been, and
is the last one that the formatter hears of (`cellCalls_cut`).
-/

namespace NotebookTidy

namespace Formatter

/-- The formatter with the same answers, which nobody interrupts. -/
def calm (f : Formatter) : Formatter := fun history call => ⟨(f history call).result, 0⟩

/-- **The user interrupts during a call**: the one after so many others, and no earlier one. -/
structure RaisesAt (f : Formatter) (n : Nat) : Prop where
  /-- No interruption comes before. -/
  before : ∀ history call, history.length < n → (f history call).interrupts = 0
  /-- One comes during the call. -/
  during : ∀ history call, history.length = n → 0 < (f history call).interrupts

/-- The formatter with an interruption during one call. -/
def raisedAt (f : Formatter) (n : Nat) : Formatter := fun history call =>
  ⟨(f history call).result, if history.length = n then 1 else 0⟩

theorem raisesAt_raisedAt (f : Formatter) (n : Nat) : (f.raisedAt n).RaisesAt n :=
  ⟨fun _ _ h => if_neg (Nat.ne_of_lt h), fun _ _ h => by simp [raisedAt, h]⟩

end Formatter

theorem World.calls_perform (w : World) (action : DiskAction) :
    (w.perform action).2.calls = w.calls := by
  rw [perform_snd]

theorem World.raised_calm (f : Formatter) (calls : List Call) : raised f.calm calls = 0 := by
  induction calls with
  | nil => rfl
  | cons call before ih => exact ih

namespace Task
variable {α β : Type} {formatter : Formatter} {n : Nat}

theorem calls_le_run (t : Task α) (w : World) :
    w.calls.length ≤ (t.run formatter w).2.calls.length := by
  induction t generalizing w with
  | done a => exact Nat.le_refl _
  | ask call next ih => exact Nat.le_trans (Nat.le_succ _) (ih _ (w.asked call _))
  | poll next ih => exact ih _ w
  | disk action next ih =>
    exact w.calls_perform action ▸ ih (w.perform action).1 (w.perform action).2
  | announce outcome next ih => exact ih (w.heard outcome)

/-- A run that has been cancelled stays so. -/
theorem cancelled_run (t : Task α) {w : World} (h : w.cancelled = true) :
    (t.run formatter w).2.cancelled = true := by
  obtain ⟨es, -, hfollows⟩ := (steps_run formatter t w).trace
  have hle : w.interrupts ≤ (t.run formatter w).2.interrupts := hfollows.interrupts_le
  simp only [World.cancelled, decide_eq_true_eq] at h ⊢
  omega

/-- Nobody interrupts a calm formatter. -/
theorem cancelled_calm (formatter : Formatter) (t : Task α) (w : World) :
    (t.run formatter.calm w).2.cancelled = w.cancelled := by
  obtain ⟨-, hinterrupts⟩ : w.Undisturbed formatter.calm (t.run formatter.calm w).2 :=
    t.undisturbed_run w
  rw [World.raised_calm, World.raised_calm] at hinterrupts
  rw [World.cancelled, World.cancelled, Nat.add_right_cancel hinterrupts]

/-- A task without an action on files leaves the disk as it is. -/
theorem disk_run {t : Task α} (h : t.Quiet) (w : World) : (t.run formatter w).2.disk = w.disk := by
  obtain ⟨es, htrace, hfollows⟩ := (steps_run formatter t w).trace
  exact hfollows.disk_of_quiet (h es _ htrace)

/-- **A task that asks the formatter nothing** makes no calls. -/
theorem calls_run {t : Task α} (h : t.Avoids fun e => e.exchange?.isSome) (w : World) :
    (t.run formatter w).2.calls = w.calls := by
  induction t generalizing w with
  | done a => rfl
  | ask call next ih => cases (h.takes (.ask call next (formatter w.calls call).result)).1
  | poll next ih => exact ih _ (h.takes (.poll next _)).2 w
  | disk action next ih =>
    exact (ih _ (h.takes (.disk action next _)).2 _).trans (w.calls_perform action)
  | announce outcome next ih => exact ih (h.takes (.announce outcome next)).2 _

/-- What follows a task and asks nothing makes no calls. -/
theorem calls_bind {t : Task α} {f : α → Task β}
    (h : ∀ a, (f a).Avoids fun e => e.exchange?.isSome) (w : World) :
    ((t.bind f).run formatter w).2.calls = (t.run formatter w).2.calls := by
  rw [run_bind, calls_run (h _)]

/-- **A task that only asks the formatter** notices no interruptions. -/
theorem run_asking (formatter : Formatter) {t : Task α}
    (h : t.Avoids fun e => e.exchange?.isNone) {w v : World} (hcalls : v.calls = w.calls) :
    (t.run formatter v).1 = (t.run formatter.calm w).1 ∧
      (t.run formatter v).2.calls = (t.run formatter.calm w).2.calls := by
  induction t generalizing w v with
  | done a => exact ⟨rfl, hcalls⟩
  | ask call next ih =>
    rw [run, run, hcalls]
    exact ih _ (h.takes (.ask call next _)).2 (congrArg (call :: ·) hcalls)
  | poll next ih => cases (h.takes (.poll next true)).1
  | disk action next ih => cases (h.takes (.disk action next (.error .notFound))).1
  | announce outcome next ih => cases (h.takes (.announce outcome next)).1

/-! ## Up to the call -/

section
variable (hraises : formatter.RaisesAt n)
include hraises

/-- An answer before the call is as if nobody interrupted. -/
theorem asked_calm {w : World} (h : w.calls.length < n) (call : Call) :
    w.asked call (formatter w.calls call) = w.asked call (formatter.calm w.calls call) := by
  rw [World.asked, World.asked, hraises.before _ _ h]
  rfl

/-- **A task that has ended before the call** went the same way. -/
theorem run_eq_calm {t : Task α} {w : World}
    (h : (t.run formatter.calm w).2.calls.length ≤ n) :
    t.run formatter w = t.run formatter.calm w := by
  induction t generalizing w with
  | done a => rfl
  | ask call next ih =>
    have hgrown : w.calls.length + 1 ≤ ((ask call next).run formatter.calm w).2.calls.length :=
      calls_le_run (next _) (w.asked call _)
    have hlt : w.calls.length < n := Nat.lt_of_succ_le (Nat.le_trans hgrown h)
    rw [run, asked_calm hraises hlt]
    exact ih _ h
  | poll next ih => exact ih _ h
  | disk action next ih => exact ih _ h
  | announce outcome next ih => exact ih h

/-- **A task that makes the call** leaves the run cancelled. -/
theorem cancelled_of_call {t : Task α} {w : World} (hbefore : w.calls.length ≤ n)
    (hafter : n < (t.run formatter.calm w).2.calls.length) :
    (t.run formatter w).2.cancelled = true := by
  induction t generalizing w with
  | done a => exact absurd hbefore (Nat.not_le.mpr hafter)
  | ask call next ih =>
    rcases Nat.lt_or_eq_of_le hbefore with hlt | heq
    · rw [run, asked_calm hraises hlt]
      exact ih _ hlt hafter
    · rw [run]
      refine cancelled_run _ ?_
      have hduring := hraises.during w.calls call heq
      exact decide_eq_true (Nat.lt_of_lt_of_le hduring (Nat.le_add_left _ _))
  | poll next ih => exact ih _ hbefore hafter
  | disk action next ih =>
    have hcalls : (w.perform action).2.calls = w.calls := w.calls_perform action
    exact ih _ (Nat.le_trans (Nat.le_of_eq (congrArg List.length hcalls)) hbefore) hafter
  | announce outcome next ih => exact ih hbefore hafter

end
end Task

/-! ## The cells of a notebook -/

/-- **What the formatter has been asked** once cells have been formatted or checked. -/
def cellCalls (formatter : Formatter) (action : Action) (mode : Mode) (cells : List Cell)
    (rejections : Rejections) (w : World) : List Call :=
  match action with
  | .format => ((formatCells mode cells rejections).run formatter w).2.calls
  | .check => ((checkCells mode cells rejections).run formatter w).2.calls

/-- With which notes the cells after a code cell are looked at, if they are. -/
def goesOn (action : Action) (cell : CodeCell) :
    Except FormatterError Text × Rejections → Option Rejections
  | (.error _, _) => none
  | (.ok text, rejections) =>
    match action with
    | .format => some rejections
    | .check => if Fragment.split text = cell.fragments then some rejections else none

section
variable {formatter : Formatter} {action : Action} {mode : Mode}

theorem cellCalls_nil (rejections : Rejections) (w : World) :
    cellCalls formatter action mode [] rejections w = w.calls := by
  cases action <;> rfl

theorem cellCalls_other (members : Members) (rest : List Cell) (rejections : Rejections)
    (w : World) :
    cellCalls formatter action mode (.other members :: rest) rejections w =
      cellCalls formatter action mode rest rejections w := by
  cases action with
  | format =>
    rw [cellCalls, formatCells_other, Task.calls_bind fun _ => .done _]
    rfl
  | check => rfl

/-- A cell that is not looked at any more, because the run has been cancelled. -/
theorem cellCalls_cancelled (cells : List Cell) (rejections : Rejections) {w : World}
    (h : w.cancelled = true) : cellCalls formatter action mode cells rejections w = w.calls := by
  induction cells with
  | nil => exact cellCalls_nil rejections w
  | cons cell rest ih =>
    cases cell with
    | other members => rw [cellCalls_other, ih]
    | code cell =>
      cases action with
      | format => rw [cellCalls, formatCells_code, Task.run, h]; rfl
      | check => rw [cellCalls, checkCells_code, Task.run, h]; rfl

/-- A code cell that is looked at, and then the others or not. -/
theorem cellCalls_code (cell : CodeCell) (rest : List Cell) (rejections : Rejections) {w : World}
    (h : w.cancelled = false) :
    cellCalls formatter action mode (.code cell :: rest) rejections w =
      match goesOn action cell
          (((formatSource mode cell.source).start rejections).run formatter w).1 with
      | none => (((formatSource mode cell.source).start rejections).run formatter w).2.calls
      | some between => cellCalls formatter action mode rest between
        (((formatSource mode cell.source).start rejections).run formatter w).2 := by
  cases action with
  | format =>
    rw [cellCalls, formatCells_code, Task.run, h, Task.run_bind]
    rcases ((formatSource mode cell.source).start rejections).run formatter w with
      ⟨⟨error | text, between⟩, v⟩
    · rfl
    · exact Task.calls_bind (fun _ => .done _) v
  | check =>
    rw [cellCalls, checkCells_code, Task.run, h, Task.run_bind]
    rcases ((formatSource mode cell.source).start rejections).run formatter w with
      ⟨⟨error | text, between⟩, v⟩
    · rfl
    · by_cases hsame : Fragment.split text = cell.fragments
      · simp only [goesOn, hsame, if_true]
        rfl
      · simp only [goesOn, hsame, if_false]
        rfl

/-- A code cell during which the call is made is heard of as it would have been otherwise, and no
cell after it is. -/
theorem cellCalls_of_call {n : Nat} (hraises : formatter.RaisesAt n) (cell : CodeCell)
    (rest : List Cell) (rejections : Rejections) {w : World} (hw : w.cancelled = false)
    (hbefore : w.calls.length ≤ n)
    (hduring : n < (((formatSource mode cell.source).start rejections).run formatter.calm
      w).2.calls.length) :
    cellCalls formatter action mode (.code cell :: rest) rejections w =
      cellCalls formatter.calm action mode [.code cell] rejections w := by
  have hasks : ((formatSource mode cell.source).start rejections).Avoids
      fun e => e.exchange?.isNone := avoids_formatSource (fun _ _ => rfl) mode _ rejections
  obtain ⟨hresult, hcalls⟩ := Task.run_asking formatter hasks (rfl : w.calls = _)
  have hcancelled := Task.cancelled_of_call hraises hbefore hduring
  rw [cellCalls_code cell rest rejections hw, cellCalls_code cell [] rejections hw, hresult,
    hcalls]
  cases goesOn action cell _ with
  | none => rfl
  | some between =>
    exact (cellCalls_cancelled _ _ hcancelled).trans (hcalls.trans (cellCalls_nil _ _).symm)

/-- **The cell during which the call is made** is the last one that the formatter hears of, and what
it hears of it is what it would have heard otherwise. -/
theorem cellCalls_cut {n : Nat} (hraises : formatter.RaisesAt n) {cells : List Cell}
    {rejections : Rejections} {w : World} (hw : w.cancelled = false)
    (hbefore : w.calls.length ≤ n)
    (hafter : n < (cellCalls formatter.calm action mode cells rejections w).length) :
    ∃ before cell rest, cells = before ++ .code cell :: rest ∧
      (cellCalls formatter.calm action mode before rejections w).length ≤ n ∧
      cellCalls formatter action mode cells rejections w =
        cellCalls formatter.calm action mode (before ++ [.code cell]) rejections w := by
  induction cells generalizing rejections w with
  | nil =>
    rw [cellCalls_nil] at hafter
    exact absurd hbefore (Nat.not_le.mpr hafter)
  | cons cell rest ih =>
    cases cell with
    | other members =>
      rw [cellCalls_other] at hafter
      obtain ⟨before, cell, rest', rfl, hle, hcalls⟩ := ih hw hbefore hafter
      refine ⟨.other members :: before, cell, rest', rfl, ?_, ?_⟩
      · rw [cellCalls_other]
        exact hle
      · rw [cellCalls_other, hcalls, List.cons_append, cellCalls_other]
    | code cell =>
      rcases Nat.lt_or_ge n (((formatSource mode cell.source).start rejections).run formatter.calm
        w).2.calls.length with hlt | hge
      · -- the call is made during this cell
        refine ⟨[], cell, rest, rfl, ?_, cellCalls_of_call hraises cell rest _ hw hbefore hlt⟩
        rw [cellCalls_nil]
        exact hbefore
      · -- the call is made later, if this cell does not end the loop
        have hsame := Task.run_eq_calm hraises hge
        rw [cellCalls_code cell rest rejections hw] at hafter ⊢
        rw [hsame]
        cases hgoes : goesOn action cell
            (((formatSource mode cell.source).start rejections).run formatter.calm w).1 with
        | none =>
          rw [hgoes] at hafter
          exact absurd hge (Nat.not_le.mpr hafter)
        | some between =>
          rw [hgoes] at hafter
          obtain ⟨before, cell', rest', rfl, hle, hrest⟩ := ih
            ((Task.cancelled_calm formatter _ w).trans hw) hge hafter
          refine ⟨.code cell :: before, cell', rest', rfl, ?_, ?_⟩
          · rw [cellCalls_code cell before rejections hw, hgoes]
            exact hle
          · rw [List.cons_append, cellCalls_code cell _ rejections hw, hgoes]
            exact hrest

end
end NotebookTidy
