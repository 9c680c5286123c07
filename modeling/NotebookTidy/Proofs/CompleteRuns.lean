import NotebookTidy.CommandLine.Run
import NotebookTidy.Proofs.BatchTraces
import NotebookTidy.Proofs.SequentialRuns

/-!
# Which files a run leaves out

A run that was not cancelled should have an outcome for every file.  It has, with one exception:
a formatter that is *interrupted* looks to the file's task like a cancelled run, so the task ends
without an outcome although nobody cancelled anything.  The files left out are exactly those, one
for each interrupted call (`Runs.length_outcomes`), and a run over such files alone is reported as
clean.

Every other failure of the formatter is reported as a failure of its file, whether or not the run
was cancelled (`Runs.failure_mem`).
-/

namespace NotebookTidy

/-- The path of the file that an outcome is about. -/
def Outcome.path? : Outcome → Option Text
  | .ok finding => some finding.path
  | .error (.notebook path _) => some path
  | .error (.formatter path _) => some path
  | .error (.write path _) => some path
  | .error _ => none

/-- The formatter answered that it was interrupted. -/
def isInterrupted (exchange : Call × Formatted) : Bool := exchange.2 = .error .interrupted

/-- Nobody was told that the run is cancelled: then interruptions are the formatter's own. -/
theorem countP_isInterrupted {es : List Event} (h : .polled true ∉ es) :
    (es.filterMap Event.exchange?).countP isInterrupted = (stops es).count .interrupted := by
  induction es with
  | nil => rfl
  | cons e es ih =>
    have hrest := ih fun hmem => h (List.mem_cons_of_mem _ hmem)
    rw [stops_cons, List.count_append, ← hrest]
    cases e with
    | answered call answer =>
      rcases answer with error | formatted
      · cases error <;>
          simp [Event.exchange?, Event.stop?, FormatterError.blamesCode, isInterrupted,
            Nat.add_comm]
      · simp [Event.exchange?, Event.stop?, isInterrupted]
    | polled cancelled =>
      cases cancelled
      · exact (Nat.zero_add _).symm
      · exact absurd List.mem_cons_self h
    | _ => exact (Nat.zero_add _).symm

namespace Batch

theorem Tells.count_interrupted {path : Text} {result : Option Outcome}
    {met : List FormatterError} (h : Tells path result met) :
    met.count .interrupted = if result = none then 1 else 0 := by
  cases h with
  | failed error h => simp [h]
  | _ => simp

theorem Tells.path_eq {path : Text} {outcome : Outcome} {met : List FormatterError}
    (h : Tells path (some outcome) met) : outcome.path? = some path := by
  cases h <;> rfl

/-! ## Results in the order of the files -/

/-- Positions without a result are as many as results are missing. -/
theorem length_filterMap_id (results : List (Option Outcome)) :
    (results.filterMap id).length +
        ∑ position ∈ Finset.range results.length,
          (if results[position]? = some none then 1 else 0) = results.length := by
  induction results with
  | nil => rfl
  | cons result rest ih =>
    rw [List.length_cons, Finset.sum_range_succ']
    simp only [List.getElem?_cons_succ, List.getElem?_cons_zero]
    cases result with
    | none =>
      rw [List.filterMap_cons_none rfl, if_pos rfl]
      omega
    | some outcome =>
      have hcons : (some outcome :: rest).filterMap id = outcome :: rest.filterMap id := rfl
      rw [hcons, if_neg (by simp), List.length_cons]
      omega

/-- **Outcomes are about the files in their order**, with some files left out perhaps. -/
theorem paths_sublist {files : List StoredNotebook} {results : List (Option Outcome)}
    (hlength : results.length = files.length)
    (hpath : ∀ (position : Nat) (file : StoredNotebook) (outcome : Outcome),
      files[position]? = some file → results[position]? = some (some outcome) →
        outcome.path? = some file.path) :
    ((results.filterMap id).map Outcome.path?).Sublist
      ((files.map StoredNotebook.path).map some) := by
  induction files generalizing results with
  | nil =>
    rw [List.eq_nil_of_length_eq_zero hlength]
    exact .slnil
  | cons file rest ih =>
    cases results with
    | nil => simp at hlength
    | cons result others =>
      have hothers := ih (by simpa using hlength) fun position => hpath (position + 1)
      cases result with
      | none => exact hothers.cons _
      | some outcome =>
        have hfirst := hpath 0 file outcome rfl rfl
        have hcons : (some outcome :: others).filterMap id = outcome :: others.filterMap id := rfl
        rw [hcons, List.map_cons, List.map_cons, List.map_cons, hfirst]
        exact hothers.cons_cons _

/-! ## Runs -/

/-- **What is known of a run by its end**: what each file's task ended with, and which stop it
met. -/
theorem Runs.told {formatter : Formatter} {plan : BatchPlan} {paths : List Text} {w : World}
    {r : BatchResult} {after : World} (h : Runs formatter plan paths w r after) :
    ∃ (files : List StoredNotebook) (results : List (Option Outcome))
      (log : List (Nat × Event)), files.map StoredNotebook.path = paths ∧
      results.length = files.length ∧ r = result results after ∧
      World.Follows formatter w (log.map Prod.snd) after ∧
      (∀ entry ∈ log, entry.1 < files.length) ∧
      ∀ (position : Nat) (file : StoredNotebook) (result : Option Outcome),
        files[position]? = some file → results[position]? = some result →
          Tells file.path result (stops (Pool.own position log)) := by
  obtain ⟨files, results, log, hload, hlog, hr⟩ := h.history
  refine ⟨files, results, log, (of_loadAll hload).1, ?_, hr, hlog.follows, hlog.position_lt, ?_⟩
  · simpa using hlog.length_tasks
  · intro position file result hfile hresult
    have htrace := hlog.trace hfile (t := .done result) (by simp [hresult])
    exact meets_task plan file _ _ htrace

/-- A run that was not cancelled has an outcome less for each interrupted formatter. -/
theorem Runs.length_outcomes {formatter : Formatter} {plan : BatchPlan} {paths : List Text}
    {w : World} {r : BatchResult} {after : World} (h : Runs formatter plan paths w r after)
    (hcancelled : r.cancelled = false) :
    r.outcomes.length + (World.exchangesSince formatter w after).countP isInterrupted =
      paths.length := by
  obtain ⟨files, results, log, rfl, hlength, rfl, hfollows, hlt, htells⟩ := h.told
  have hpolled : .polled true ∉ log.map Prod.snd := by
    intro hmem
    have hafter : after.cancelled = false := hcancelled
    rw [hfollows.cancelled_of_polled hmem] at hafter
    cases hafter
  -- each file has as many interrupted calls as it lacks outcomes: one or none
  have hone (position : Nat) (hposition : position ∈ Finset.range results.length) :
      ((Pool.own position log).countP fun e => (e.exchange?.map isInterrupted).getD false) =
        if results[position]? = some none then 1 else 0 := by
    have hlt := Finset.mem_range.mp hposition
    have htold := htells position files[position] results[position]
      (List.getElem?_eq_getElem _) (List.getElem?_eq_getElem hlt)
    have hown : .polled true ∉ Pool.own position log := fun hmem =>
      hpolled ((Pool.own_sublist position log).mem hmem)
    rw [← List.countP_filterMap, countP_isInterrupted hown, htold.count_interrupted,
      List.getElem?_eq_getElem hlt]
    simp only [Option.some.injEq]
  have hsum := Pool.sum_countP_own
    (fun e => (e.exchange?.map isInterrupted).getD false) results.length log (hlength ▸ hlt)
  rw [Finset.sum_congr rfl hone, ← List.countP_filterMap, ← hfollows.exchangesSince_eq] at hsum
  have hresults := length_filterMap_id results
  simp only [result, List.length_map]
  omega

/-- **A failing formatter is reported**, unless it was interrupted or refused the code: its file
has the failure as outcome, even in a run that was cancelled. -/
theorem Runs.failure_mem {formatter : Formatter} {plan : BatchPlan} {paths : List Text}
    {w : World} {r : BatchResult} {after : World} (h : Runs formatter plan paths w r after)
    {call : Call} {error : FormatterError} (hblames : error.blamesCode = false)
    (hinterrupted : error ≠ .interrupted)
    (hmem : (call, .error error) ∈ World.exchangesSince formatter w after) :
    ∃ path ∈ paths, .error (.formatter path error) ∈ r.outcomes := by
  obtain ⟨files, results, log, rfl, hlength, rfl, hfollows, hlt, htells⟩ := h.told
  rw [hfollows.exchangesSince_eq] at hmem
  obtain ⟨e, he, hexchange⟩ := List.mem_filterMap.mp hmem
  obtain ⟨⟨position, e'⟩, hentry, rfl⟩ := List.mem_map.mp he
  have hposition := hlt _ hentry
  have hstop : error ∈ stops (Pool.own position log) := by
    refine List.mem_filterMap.mpr ⟨e', ?_, ?_⟩
    · exact List.mem_filterMap.mpr ⟨_, hentry, if_pos rfl⟩
    · cases e' with
      | answered call' answer =>
        cases hexchange
        simp [Event.stop?, hblames]
      | _ => cases hexchange
  have hresult : position < results.length := hlength ▸ hposition
  have htold := htells position files[position] results[position]
    (List.getElem?_eq_getElem _) (List.getElem?_eq_getElem _)
  generalize hlast : results[position] = last at htold
  generalize stops (Pool.own position log) = met at htold hstop
  cases htold with
  | dropped => exact absurd (List.mem_singleton.mp hstop) hinterrupted
  | failed error' _ =>
    rw [List.mem_singleton.mp hstop]
    refine ⟨_, List.mem_map_of_mem (List.getElem_mem hposition), ?_⟩
    exact List.mem_filterMap.mpr ⟨_, List.getElem_mem hresult, hlast⟩
  | _ => cases hstop

/-- Outcomes are about the files of the run, in their order. -/
theorem Runs.outcomes_sublist {formatter : Formatter} {plan : BatchPlan} {paths : List Text}
    {w : World} {r : BatchResult} {after : World} (h : Runs formatter plan paths w r after) :
    (r.outcomes.map Outcome.path?).Sublist (paths.map some) := by
  obtain ⟨files, results, log, rfl, hlength, rfl, -, -, htells⟩ := h.told
  exact paths_sublist hlength fun position file outcome hfile hresult =>
    (htells position file (some outcome) hfile hresult).path_eq

/-- Outcomes of a clean result are findings, and no file would have to be written. -/
theorem finding_of_isClean {r : BatchResult} (h : r.isClean = true) {outcome : Outcome}
    (hmem : outcome ∈ r.outcomes) : ∃ finding, outcome = .ok finding ∧
      (finding.verdict = .reformatted ∨ finding.verdict = .unchanged) := by
  simp only [BatchResult.isClean, Bool.and_eq_true, List.isEmpty_iff, decide_eq_true_eq] at h
  obtain ⟨⟨-, hfailures⟩, hcount⟩ := h
  cases outcome with
  | error error =>
    have hfailure : error ∈ r.failures := List.mem_filterMap.mpr ⟨_, hmem, rfl⟩
    rw [hfailures] at hfailure
    cases hfailure
  | ok finding =>
    refine ⟨finding, rfl, ?_⟩
    have hfinding : finding ∈ r.findings := List.mem_filterMap.mpr ⟨_, hmem, rfl⟩
    have hnot := List.filter_eq_nil_iff.mp (List.eq_nil_of_length_eq_zero hcount) _ hfinding
    cases hverdict : finding.verdict with
    | wouldReformat => simp [hverdict] at hnot
    | reformatted => exact Or.inl rfl
    | unchanged => exact Or.inr rfl

theorem resultCode_of_isClean {r : BatchResult} (h : r.isClean = true) :
    r.cancelled = false ∧ Surroundings.resultCode r = 0 := by
  have hcancelled : r.cancelled = false := by
    simp only [BatchResult.isClean, Bool.and_eq_true, Bool.not_eq_true'] at h
    exact h.1.1
  simp [Surroundings.resultCode, h, hcancelled]

/-- **What a run examines.**  A run that was not cancelled lacks one outcome for each formatter
that was interrupted, and has one for every file exactly if none was.  If its result is clean, the
exit code is zero and the outcomes that are there are findings of files that stay as they are now.
Formatters that fail in any other way are reported. -/
theorem Runs.complete_iff_not_interrupted {formatter : Formatter} {plan : BatchPlan}
    {paths : List Text} {w : World} {r : BatchResult} {after : World}
    (h : Runs formatter plan paths w r after) :
    (r.cancelled = false →
      r.outcomes.length + (World.exchangesSince formatter w after).countP isInterrupted =
        paths.length) ∧
    (r.cancelled = false →
      (r.outcomes.map Outcome.path? = paths.map some ↔
        ∀ exchange ∈ World.exchangesSince formatter w after,
          exchange.2 ≠ .error .interrupted)) ∧
    (r.isClean = true →
      r.cancelled = false ∧ Surroundings.resultCode r = 0 ∧
        ∀ outcome ∈ r.outcomes, ∃ finding, outcome = .ok finding ∧
          (finding.verdict = .reformatted ∨ finding.verdict = .unchanged)) ∧
    (∀ exchange ∈ World.exchangesSince formatter w after, ∀ error,
      exchange.2 = .error error → error.blamesCode = false → error ≠ .interrupted →
        ∃ path ∈ paths, .error (.formatter path error) ∈ r.outcomes) := by
  refine ⟨h.length_outcomes, fun hcancelled => ?_, fun hclean => ?_, ?_⟩
  · have hlength := h.length_outcomes hcancelled
    have hnone : (World.exchangesSince formatter w after).countP isInterrupted = 0 ↔
        ∀ exchange ∈ World.exchangesSince formatter w after,
          exchange.2 ≠ .error .interrupted := by
      simp [List.countP_eq_zero, isInterrupted]
    rw [← hnone]
    constructor
    · intro hpaths
      have := congrArg List.length hpaths
      simp only [List.length_map] at this
      omega
    · intro hzero
      exact h.outcomes_sublist.eq_of_length (by simp only [List.length_map]; omega)
  · obtain ⟨hcancelled, hcode⟩ := resultCode_of_isClean hclean
    exact ⟨hcancelled, hcode, fun _ => finding_of_isClean hclean⟩
  · rintro ⟨call, answer⟩ hmem error rfl hblames hinterrupted
    exact h.failure_mem hblames hinterrupted hmem

/-- The document of a notebook with one code cell. -/
def oneCell : Text := "\x7b\"cells\":[\x7b\"cell_type\":\"code\",\"source\":\"x=1\"\x7d]\x7d".toList

/-- A file system in which there is this one file. -/
def oneFile : FileSystem :=
  ⟨[(["a.ipynb".toList], .file (Utf8.encode oneCell) Permission.ofFile)], []⟩

/-- A run over one file with a formatter that leaves code as it is examines that file. -/
theorem complete_of_identity :
    ∃ r after, Runs .identity ⟨.check, 1, .standard⟩ ["/a.ipynb".toList] (.start oneFile) r after ∧
      r.cancelled = false ∧ r.outcomes.map Outcome.path? = [some "/a.ipynb".toList] := by
  have hruns := @runs_of_run .identity ⟨.check, 1, .standard⟩ ["/a.ipynb".toList]
    (.start oneFile) _ _ rfl
  refine ⟨_, _, hruns, rfl, (hruns.complete_iff_not_interrupted.2.1 rfl).mpr ?_⟩
  rintro exchange hmem
  cases hmem with
  | head => nofun
  | tail _ hmem => cases hmem

/-- **A clean run that examined nothing**: its formatter was interrupted, the run was not. -/
theorem clean_of_interrupted :
    ∃ r after, Runs (.ofFunction fun _ => .error .interrupted) ⟨.format, 1, .standard⟩
        ["/a.ipynb".toList] (.start oneFile) r after ∧
      r.isClean = true ∧ Surroundings.resultCode r = 0 ∧ r.outcomes = [] :=
  ⟨_, _, runs_of_run rfl, rfl, rfl, rfl⟩

end Batch
end NotebookTidy
