import NotebookTidy.Proofs.CancelledTasks
import NotebookTidy.Proofs.CompleteRuns

/-!
# Interruptions that come too late

A run takes note of an interruption when a task asks for it (`Event.polled`), and its result is
called cancelled if there has been an interruption by the end.  In between no task may ask any more:
then the interruption came **late** (`World.InterruptedLate`), nobody took note of it, every file
has its outcome, and the result is called cancelled all the same.

So a cancelled run is not always one that left files out.  It did if and only if the interruption
came before some task asked for the last time, or the formatter said that it was interrupted
(`Batch.Runs.complete_iff_interruptedLate`).
-/

namespace NotebookTidy

/-- A task ends as interrupted if it is told that the run is cancelled, or the formatter says so. -/
theorem Event.stop?_eq_interrupted_iff {e : Event} :
    e.stop? = some .interrupted ↔
      e = .polled true ∨ ∃ call, e = .answered call (.error .interrupted) := by
  cases e with
  | polled cancelled => cases cancelled <;> simp [stop?]
  | answered call answer =>
    rcases answer with error | formatted
    · cases error <;> simp [stop?, FormatterError.blamesCode]
    · simp [stop?]
  | _ => simp [stop?]

namespace World
variable {formatter : Formatter}

/-- **The run was interrupted late**, if it was interrupted at all: not before the last time that a
task asked. -/
def InterruptedLate (formatter : Formatter) (w : World) (es : List Event) (after : World) : Prop :=
  ∃ early mid late, es = early ++ late ∧ Follows formatter w early mid ∧ mid.cancelled = false ∧
    Follows formatter mid late after ∧ ∀ cancelled, .polled cancelled ∉ late

/-- In a cancelled run nobody asks without being told. -/
theorem Follows.not_polled {w v : World} {es : List Event} (h : Follows formatter w es v)
    (hw : w.cancelled = true) (hpolled : .polled true ∉ es) :
    ∀ cancelled, .polled cancelled ∉ es := by
  intro cancelled hmem
  induction h with
  | refl => cases hmem
  | @gives w v u e es first rest ih =>
    rw [List.mem_cons, not_or] at hpolled
    rcases List.mem_cons.mp hmem with rfl | hmem
    · rw [← first.cancelled, hw] at hpolled
      exact hpolled.1 rfl
    · have hle := first.interrupts_le
      refine ih ?_ hpolled.2 hmem
      simp only [World.cancelled, decide_eq_true_eq] at hw ⊢
      omega
  | @interrupt w u es rest ih =>
    exact ih (by simp [World.cancelled, World.interrupted]) hpolled hmem

/-- **An interruption is late** if and only if nobody was told of it. -/
theorem Follows.interruptedLate_iff {w after : World} {es : List Event}
    (h : Follows formatter w es after) (hw : w.cancelled = false) :
    InterruptedLate formatter w es after ↔ .polled true ∉ es := by
  constructor
  · rintro ⟨early, mid, late, rfl, hearly, hmid, -, hlate⟩ hmem
    rcases List.mem_append.mp hmem with hmem | hmem
    · rw [hearly.cancelled_of_polled hmem] at hmid
      cases hmid
    · exact hlate true hmem
  · intro hpolled
    induction h with
    | refl w => exact ⟨[], w, [], rfl, .refl w, hw, .refl w, fun _ => nofun⟩
    | @gives w v u e es first rest ih =>
      have hrest : .polled true ∉ es := fun hmem => hpolled (List.mem_cons_of_mem e hmem)
      cases hv : v.cancelled with
      | false =>
        obtain ⟨early, mid, late, rfl, hearly, hlater⟩ := ih hv hrest
        exact ⟨e :: early, mid, late, rfl, .gives first hearly, hlater⟩
      | true =>
        -- this event interrupted the run, so it is no answer to a task that asked
        refine ⟨[], w, e :: es, rfl, .refl w, hw, .gives first rest, ?_⟩
        rintro cancelled hmem
        rcases List.mem_cons.mp hmem with rfl | hmem
        · cases first
          rw [hw] at hv
          cases hv
        · exact rest.not_polled hv hrest cancelled hmem
    | @interrupt w u es rest ih =>
      refine ⟨[], w, es, rfl, .refl w, hw, .interrupt rest, ?_⟩
      exact rest.not_polled (by simp [World.cancelled, World.interrupted]) hpolled

end World

namespace Batch

/-- **Each task that took note of an interruption costs an outcome**, in every run. -/
theorem length_outcomes_of_history {formatter : Formatter} {plan : BatchPlan}
    {files : List StoredNotebook} {w after : World} {results : List (Option Outcome)}
    {log : List (Nat × Event)} {begun : List Bool}
    (h : Pool.History formatter plan files w log ⟨results.map .done, begun, after⟩) :
    (result results after).outcomes.length + (stops (log.map Prod.snd)).count .interrupted =
      files.length := by
  have hlength : results.length = files.length := by simpa using h.length_tasks
  let notice (e : Event) : Bool := (e.stop?.map (· == .interrupted)).getD false
  have hnotice (es : List Event) : es.countP notice = (stops es).count .interrupted :=
    (List.countP_filterMap ..).symm
  have hone (position : Nat) (hposition : position ∈ Finset.range results.length) :
      (Pool.own position log).countP notice = if results[position]? = some none then 1 else 0 := by
    have hlt := Finset.mem_range.mp hposition
    have htrace := h.trace (List.getElem?_eq_getElem (hlength ▸ hlt))
      (t := .done results[position]) (by simp)
    have htold : Tells _ _ (stops (Pool.own position log)) := meets_task plan _ _ _ htrace
    rw [hnotice, htold.count_interrupted, List.getElem?_eq_getElem hlt]
    simp only [Option.some.injEq]
  have hsum := Pool.sum_countP_own notice results.length log (hlength ▸ h.position_lt)
  rw [Finset.sum_congr rfl hone, hnotice] at hsum
  rw [← hlength, ← hsum]
  exact length_filterMap_id results

/-- **Which runs are complete.**  A run that starts with no interruption has a history, in which each
task that took note of an interruption costs one outcome.  So every file has an outcome if and only
if no formatter was interrupted and the run was interrupted late, if at all.  Whether the result is
called cancelled is another question: it is if there was an interruption by the end. -/
theorem Runs.complete_iff_interruptedLate {formatter : Formatter} {plan : BatchPlan}
    {paths : List Text} {w : World} {r : BatchResult} {after : World}
    (h : Runs formatter plan paths w r after) (hw : w.cancelled = false) :
    r.cancelled = after.cancelled ∧
    ∃ files results log, StoredNotebook.loadAll w.disk paths = .ok files ∧
      Pool.History formatter plan files w log
        ⟨results.map .done, files.map fun _ => true, after⟩ ∧
      r = result results after ∧
      r.outcomes.length + (stops (log.map Prod.snd)).count .interrupted = paths.length ∧
      (r.outcomes.map Outcome.path? = paths.map some ↔
        (∀ call, .answered call (.error .interrupted) ∉ log.map Prod.snd) ∧
          World.InterruptedLate formatter w (log.map Prod.snd) after) := by
  obtain ⟨files, results, log, hload, hlog, rfl⟩ := h.history
  have hpaths : files.length = paths.length := by
    rw [← (of_loadAll hload).1, List.length_map]
  have hlength := (length_outcomes_of_history hlog).trans hpaths
  refine ⟨rfl, files, results, log, hload, hlog, rfl, hlength, ?_⟩
  rw [hlog.follows.interruptedLate_iff hw]
  -- there are all outcomes if and only if nothing told a task of an interruption
  have hcomplete : (result results after).outcomes.map Outcome.path? = paths.map some ↔
      FormatterError.interrupted ∉ stops (log.map Prod.snd) := by
    rw [← List.count_eq_zero]
    constructor
    · intro hall
      have hsame := congrArg List.length hall
      rw [List.length_map, List.length_map] at hsame
      omega
    · intro hnone
      apply h.outcomes_sublist.eq_of_length
      rw [List.length_map, List.length_map]
      omega
  rw [hcomplete]
  constructor
  · intro hstops
    have hevent {e : Event} (he : e.stop? = some .interrupted) : e ∉ log.map Prod.snd :=
      fun hmem => hstops (List.mem_filterMap.mpr ⟨e, hmem, he⟩)
    exact ⟨fun call => hevent (Event.stop?_eq_interrupted_iff.mpr (.inr ⟨call, rfl⟩)),
      hevent (Event.stop?_eq_interrupted_iff.mpr (.inl rfl))⟩
  · rintro ⟨hanswered, hpolled⟩ hmem
    obtain ⟨e, he, hstop⟩ := List.mem_filterMap.mp hmem
    rcases Event.stop?_eq_interrupted_iff.mp hstop with rfl | ⟨call, rfl⟩
    · exact hpolled he
    · exact hanswered call he

/-- A run over one file that was interrupted during the only call of its formatter was interrupted
late. -/
theorem interruptedLate_of_last_call :
    ∃ r after log, Runs (Formatter.identity.raisedAt 0) ⟨.check, 1, .standard⟩ ["/a.ipynb".toList]
        (.start oneFile) r after ∧ (World.start oneFile).cancelled = false ∧
      r.cancelled = after.cancelled ∧
      World.InterruptedLate (Formatter.identity.raisedAt 0) (.start oneFile) log after := by
  have hruns := @runs_of_run (Formatter.identity.raisedAt 0) ⟨.check, 1, .standard⟩
    ["/a.ipynb".toList] (.start oneFile) _ _ rfl
  obtain ⟨hcancelled, _, _, log, -, -, -, -, hcomplete⟩ :=
    hruns.complete_iff_interruptedLate rfl
  exact ⟨_, _, log.map Prod.snd, hruns, rfl, hcancelled, (hcomplete.mp rfl).2⟩

/-- **A cancelled run in which every file was processed**: it was interrupted during the last call of
the formatter. -/
theorem cancelled_of_last_call :
    ∃ r after, Runs (Formatter.identity.raisedAt 0) ⟨.check, 1, .standard⟩ ["/a.ipynb".toList]
        (.start oneFile) r after ∧
      r.cancelled = true ∧ r.outcomes.map Outcome.path? = [some "/a.ipynb".toList] :=
  ⟨_, _, runs_of_run rfl, rfl, rfl⟩

end Batch
end NotebookTidy
