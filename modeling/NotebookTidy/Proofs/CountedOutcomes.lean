import Mathlib.Algebra.GroupWithZero.Nat
import NotebookTidy.Batch.Summary
import NotebookTidy.Proofs.TextPieces
import NotebookTidy.Proofs.ParallelRuns

/-!
# Counting what became of files

A run that has come to its end has a list of outcomes, and says about them in several ways how many
they are: it announces them one by one, it counts files by what became of them, and it writes
numbers into one sentence.  All of these come to the number of outcomes, whichever files were left
out and in whatever order their tasks took their steps.

What can become of a file depends on what was asked for: nothing is written when files are only
looked at, and when they are formatted none is left that would have to be (`Runs.suits`).  The
numbers in the sentence are read out of its text (`Decimal.numbersIn`), by their digits alone.
-/

namespace NotebookTidy

/-! ## Numbers in a text -/

namespace Decimal

/-- **The numbers that are written in a text**, one for each run of digits. -/
def numbersIn (t : Text) : List Nat := (t.splitOnP fun c => !isDigit c).filterMap read?

/-- What is no digit comes between numbers. -/
theorem numbersIn_append_cons {c : Char} (hc : isDigit c = false) (before after : Text) :
    numbersIn (before ++ c :: after) = numbersIn before ++ numbersIn after := by
  unfold numbersIn
  rw [List.splitOnP_append_cons _ _ (by simp [hc]), List.filterMap_append]

theorem numbersIn_write (n : Nat) : numbersIn (write n) = [n] := by
  have hdigits : ∀ c ∈ write n, (!isDigit c) = false := by
    intro c hc
    rw [isDigit_of_mem_write hc]
    rfl
  rw [numbersIn, List.splitOnP_eq_singleton hdigits, List.filterMap_cons_some (read?_write n)]
  rfl

theorem numbersIn_eq_nil {t : Text} (h : ∀ c ∈ t, isDigit c = false) : numbersIn t = [] := by
  induction t with
  | nil => rfl
  | cons c rest ih =>
    obtain ⟨hc, hrest⟩ := List.forall_mem_cons.mp h
    exact (numbersIn_append_cons hc [] rest).trans (ih hrest)

/-- Numbers in a list of texts are those in its texts. -/
theorem numbersIn_intercalate (parts : List Text) :
    numbersIn (Text.intercalate ", ".toList parts) = parts.flatMap numbersIn := by
  induction parts with
  | nil => rfl
  | cons part rest ih =>
    cases rest with
    | nil => exact (List.append_nil _).symm
    | cons next others =>
      have hsplit : Text.intercalate ", ".toList (part :: next :: others) =
          part ++ ',' :: ([] ++ ' ' :: Text.intercalate ", ".toList (next :: others)) := by
        simp [Text.intercalate]
      rw [hsplit, numbersIn_append_cons (by decide), numbersIn_append_cons (by decide), ih,
        List.flatMap_cons]
      rfl

end Decimal

/-! ## The sentence about a run -/

namespace BatchResult

theorem not_isDigit_of_mem_summaryVerbs (action : Action) :
    (∀ c ∈ (summaryVerbs action).1, Decimal.isDigit c = false) ∧
      (∀ c ∈ (summaryVerbs action).2.1, Decimal.isDigit c = false) ∧
      ∀ c ∈ (summaryVerbs action).2.2, Decimal.isDigit c = false := by
  have hdigits (verb : Text) (h : verb.any Decimal.isDigit = false) :
      ∀ c ∈ verb, Decimal.isDigit c = false := by
    simpa using h
  cases action with
  | format => exact ⟨hdigits _ rfl, hdigits _ rfl, hdigits _ rfl⟩
  | check => exact ⟨hdigits _ rfl, hdigits _ rfl, hdigits _ rfl⟩

/-- A count is the one number in its part of the summary. -/
theorem sum_numbersIn_summaryPart (count : Nat) {verb : Text}
    (hverb : ∀ c ∈ verb, Decimal.isDigit c = false) :
    ((summaryPart count verb).flatMap Decimal.numbersIn).sum = count := by
  by_cases hzero : count = 0
  · rw [summaryPart, if_pos hzero, hzero]
    rfl
  · have hnoun : Decimal.numbersIn (if count = 1 then "file".toList else "files".toList) = [] := by
      split <;> decide
    have hpart : Decimal.numbersIn
        (counted count "file".toList "files".toList ++ [' '] ++ verb) = [count] := by
      rw [counted, List.append_assoc, List.append_assoc, List.append_assoc,
        List.singleton_append, List.singleton_append,
        Decimal.numbersIn_append_cons (by decide), Decimal.numbersIn_append_cons (by decide),
        Decimal.numbersIn_write, hnoun, Decimal.numbersIn_eq_nil hverb]
      rfl
    rw [summaryPart, if_neg hzero, List.flatMap_singleton, hpart, List.sum_singleton]

/-! ## Counts -/

theorem length_outcomes (r : BatchResult) :
    r.findings.length + r.failures.length = r.outcomes.length := by
  obtain ⟨outcomes, cancelled⟩ := r
  induction outcomes with
  | nil => rfl
  | cons outcome rest ih =>
    cases outcome with
    | error error =>
      have hfindings : (mk (.error error :: rest) cancelled).findings =
          (mk rest cancelled).findings := rfl
      have hfailures : (mk (.error error :: rest) cancelled).failures =
          error :: (mk rest cancelled).failures := rfl
      rw [hfindings, hfailures, List.length_cons, List.length_cons, ← ih, Nat.add_assoc]
    | ok finding =>
      have hfindings : (mk (.ok finding :: rest) cancelled).findings =
          finding :: (mk rest cancelled).findings := rfl
      have hfailures : (mk (.ok finding :: rest) cancelled).failures =
          (mk rest cancelled).failures := rfl
      rw [hfindings, hfailures, List.length_cons, List.length_cons, ← ih, Nat.add_right_comm]

/-- **Every finding is counted once.** -/
theorem length_findings (r : BatchResult) :
    r.count .reformatted + r.count .wouldReformat + r.count .unchanged = r.findings.length := by
  unfold count
  induction r.findings with
  | nil => rfl
  | cons finding rest ih =>
    rw [List.length_cons, ← ih]
    cases hverdict : finding.verdict <;> simp [hverdict] <;> omega

theorem counts_eq (r : BatchResult) :
    r.count .reformatted + r.count .wouldReformat + r.count .unchanged + r.failures.length =
      r.outcomes.length := by
  rw [length_findings, length_outcomes]

theorem sum_numbersIn_summaryParts (r : BatchResult) (action : Action) :
    ((r.summaryParts action).flatMap Decimal.numbersIn).sum = r.outcomes.length := by
  obtain ⟨hchanged, hunchanged, hfailed⟩ := not_isDigit_of_mem_summaryVerbs action
  rw [summaryParts, List.flatMap_append, List.flatMap_append, List.sum_append, List.sum_append,
    sum_numbersIn_summaryPart _ hchanged, sum_numbersIn_summaryPart _ hunchanged,
    sum_numbersIn_summaryPart _ hfailed, counts_eq]

/-- **The numbers in the summary add up to the number of outcomes.** -/
theorem sum_numbersIn_summary (r : BatchResult) (action : Action) :
    (Decimal.numbersIn (r.summary action)).sum = r.outcomes.length := by
  rw [← sum_numbersIn_summaryParts r action, summary]
  split
  · next hparts =>
    rw [hparts]
    decide
  · rw [Decimal.numbersIn_append_cons (by decide), Decimal.numbersIn_intercalate]
    simp [Decimal.numbersIn_eq_nil]

/-- It is said that nothing was processed exactly if nothing was. -/
theorem summary_eq_nothingProcessed_iff (r : BatchResult) (action : Action) :
    r.summary action = nothingProcessed ↔ r.outcomes = [] := by
  constructor
  · intro h
    have hsum := sum_numbersIn_summary r action
    rw [h] at hsum
    exact List.eq_nil_of_length_eq_zero hsum.symm
  · intro h
    have hcounts := counts_eq r
    rw [h, List.length_nil] at hcounts
    have hchanged : r.count .reformatted + r.count .wouldReformat = 0 := by omega
    have hunchanged : r.count .unchanged = 0 := by omega
    have hfailed : r.failures.length = 0 := by omega
    rw [summary, if_pos]
    rw [summaryParts, hchanged, hunchanged, hfailed]
    rfl

end BatchResult

/-! ## Verdicts -/

/-- The verdict on a file that is not as it should be, after what was asked for. -/
def Action.verdict : Action → Verdict
  | .format => .reformatted
  | .check => .wouldReformat

/-- The outcome is one that can come of what was asked for. -/
def Outcome.Suits (action : Action) : Outcome → Prop
  | .ok finding => finding.verdict = .unchanged ∨ finding.verdict = action.verdict
  | .error _ => True

namespace StoredNotebook

theorem suits_format (mode : Mode) (file : StoredNotebook) (before : List FormatterError) :
    Task.Meets before (file.format mode) fun outcome _ => outcome.Suits .format := by
  rw [format_eq]
  refine .bind_of_forall ?_
  rintro ⟨notebook, error | ⟨changed, rejections⟩⟩ met
  · exact .done trivial
  · cases changed
    · exact .done (Or.inl rfl)
    · simp only [save_eq]
      refine .poll fun cancelled => ?_
      cases cancelled
      · refine .bind_of_forall ?_
        rintro (fault | ⟨⟩) met'
        · exact .done trivial
        · exact .done (Or.inr rfl)
      · exact .done trivial

theorem suits_check (mode : Mode) (file : StoredNotebook) (before : List FormatterError) :
    Task.Meets before (file.check mode) fun outcome _ => outcome.Suits .check := by
  rw [check_eq]
  refine .bind_of_forall ?_
  rintro (error | ⟨formatted, rejections⟩) met
  · exact .done trivial
  · cases formatted
    · exact .done (Or.inr rfl)
    · exact .done (Or.inl rfl)

end StoredNotebook

namespace Batch

/-- **A task ends with an outcome that suits what was asked for**, if it ends with one. -/
theorem suits_task (plan : BatchPlan) (file : StoredNotebook) :
    Task.Meets [] (task plan file) fun result _ =>
      ∀ outcome, result = some outcome → outcome.Suits plan.action := by
  rw [task_eq]
  refine .poll fun cancelled => ?_
  cases cancelled
  · have hprocess (before : List FormatterError) :
        Task.Meets before (file.process plan.action plan.mode) fun outcome _ =>
          outcome.Suits plan.action := by
      unfold StoredNotebook.process
      cases plan.action
      · exact file.suits_format plan.mode before
      · exact file.suits_check plan.mode before
    refine .bind (hprocess _) ?_
    intro outcome met hsuits
    unfold report
    split
    · exact .done nofun
    · refine .announce (.done ?_)
      intro outcome' heq
      cases heq
      exact hsuits
  · exact .done nofun

theorem Runs.suits {formatter : Formatter} {plan : BatchPlan} {paths : List Text} {w : World}
    {r : BatchResult} {after : World} (h : Runs formatter plan paths w r after)
    {outcome : Outcome} (hmem : outcome ∈ r.outcomes) : outcome.Suits plan.action := by
  obtain ⟨files, results, log, -, hlog, rfl⟩ := h.history
  obtain ⟨result, hresult, rfl⟩ := List.mem_filterMap.mp hmem
  obtain ⟨position, hlt, hposition⟩ := List.mem_iff_getElem.mp hresult
  have hlength : results.length = files.length := by simpa using hlog.length_tasks
  have hfile : files[position]? = some files[position] :=
    List.getElem?_eq_getElem (hlength ▸ hlt)
  have htrace := hlog.trace hfile (t := .done (some outcome)) (by simp [hlt, hposition])
  exact suits_task plan files[position] _ _ htrace outcome rfl

/-- **What a run reports adds up.**  Its outcomes are about its files, in their order, some left out
perhaps; each has been announced once, and nothing else has.  Files that were written anew, that
would have been, that stay as they are, and that failed are together as many as the outcomes.
Nothing is reported as written anew by a run that only looks at files, and nothing as having to be
written by one that formats them.  The numbers in the summary add up to the number of outcomes, and
it says that nothing was processed exactly if there are none. -/
theorem Runs.adds_up {formatter : Formatter} {plan : BatchPlan} {paths : List Text} {w : World}
    {r : BatchResult} {after : World} (h : Runs formatter plan paths w r after) :
    (r.outcomes.map Outcome.path?).Sublist (paths.map some) ∧
      after.announced.Perm (r.outcomes ++ w.announced) ∧
      r.count .reformatted + r.count .wouldReformat + r.count .unchanged + r.failures.length =
        r.outcomes.length ∧
      (∀ finding, .ok finding ∈ r.outcomes →
        (plan.action = .check → finding.verdict ≠ .reformatted) ∧
          (plan.action = .format → finding.verdict ≠ .wouldReformat)) ∧
      (Decimal.numbersIn (r.summary plan.action)).sum = r.outcomes.length ∧
      (r.summary plan.action = BatchResult.nothingProcessed ↔ r.outcomes = []) := by
  refine ⟨h.outcomes_sublist, h.announced_perm, r.counts_eq, ?_,
    r.sum_numbersIn_summary plan.action, r.summary_eq_nothingProcessed_iff plan.action⟩
  intro finding hmem
  have hsuits : finding.verdict = .unchanged ∨ finding.verdict = plan.action.verdict :=
    h.suits hmem
  constructor
  · intro hcheck
    rw [hcheck] at hsuits
    rcases hsuits with hverdict | hverdict <;> rw [hverdict] <;> nofun
  · intro hformat
    rw [hformat] at hsuits
    rcases hsuits with hverdict | hverdict <;> rw [hverdict] <;> nofun

/-- A file system with four files of the same content. -/
def fourFiles : FileSystem :=
  ⟨["a.ipynb", "b.ipynb", "c.ipynb", "d.ipynb"].map fun name =>
    ([name.toList], .file (Utf8.encode oneCell) Permission.ofFile), []⟩

/-- A formatter that spaces the first code it gets and leaves the second alone, then fails, and is
interrupted at last. -/
def flagging : Formatter
  | [], call => ⟨Spacing.format call.source, 0⟩
  | [_], call => ⟨.ok call.source, 0⟩
  | [_, _], _ => ⟨.error (.failed none []), 0⟩
  | _, _ => ⟨.error .interrupted, 1⟩

/-- A cancelled run of which there are three different outcomes to report. -/
theorem three_of_four_add_up :
    ∃ r after, Runs flagging ⟨.format, 2, .standard⟩
        ["/a.ipynb".toList, "/b.ipynb".toList, "/c.ipynb".toList, "/d.ipynb".toList]
        (.start fourFiles) r after ∧
      r.cancelled = true ∧ r.outcomes.length = 3 ∧
      r.summary .format =
        "1 file reformatted, 1 file left unchanged, 1 file failed to reformat.".toList ∧
      after.announced.Perm r.outcomes ∧
      (Decimal.numbersIn (r.summary .format)).sum = 3 := by
  have hruns := @runs_of_run flagging ⟨.format, 2, .standard⟩
    ["/a.ipynb".toList, "/b.ipynb".toList, "/c.ipynb".toList, "/d.ipynb".toList]
    (.start fourFiles) _ _ rfl
  obtain ⟨-, hannounced, -, -, hsum, -⟩ := hruns.adds_up
  exact ⟨_, _, hruns, rfl, rfl, rfl, by simpa [World.start] using hannounced, hsum⟩

end Batch
end NotebookTidy
