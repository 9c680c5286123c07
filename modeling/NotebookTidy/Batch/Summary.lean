import NotebookTidy.Batch.Outcome

/-!
# The result of a run

A run over many notebooks has an outcome for each of them, those left out that it did not come to.
What there is to tell about them all is how many files have which verdict, which failed, what code
was rejected, and whether everything is as it should be.

The summary is one sentence with up to three counts: files that changed or would, files that stay
as they are, and files that failed.  A count of zero is not mentioned.
-/

namespace NotebookTidy

/-- The result of a run. -/
structure BatchResult where
  /-- The outcomes, in the order of the files; files without an outcome are left out. -/
  outcomes : List Outcome
  /-- The run was cancelled by the time all tasks had ended. -/
  cancelled : Bool

namespace BatchResult

/-- The findings on files that were processed. -/
def findings (r : BatchResult) : List Finding :=
  r.outcomes.filterMap fun
    | .ok finding => some finding
    | .error _ => none

/-- The errors of files that were not processed. -/
def failures (r : BatchResult) : List RunError :=
  r.outcomes.filterMap fun
    | .ok _ => none
    | .error error => some error

/-- How many files have a verdict. -/
def count (r : BatchResult) (verdict : Verdict) : Nat :=
  (r.findings.filter fun finding => finding.verdict = verdict).length

/-- The rejected code of all files; of two messages for one code the later file's counts. -/
def rejections (r : BatchResult) : Rejections :=
  r.findings.foldl (fun all finding => all.extend finding.rejections) .empty

/-- Nothing was cancelled, nothing failed, and nothing has to be reformatted. -/
def isClean (r : BatchResult) : Bool :=
  !r.cancelled && r.failures.isEmpty && r.count .wouldReformat = 0

end BatchResult

/-! ## The summary -/

/-- A count with its noun. -/
def counted (count : Nat) (one many : Text) : Text :=
  Decimal.write count ++ [' '] ++ (if count = 1 then one else many)

namespace BatchResult

/-- A part of the summary: so many files with what happened to them, unless there are none. -/
def summaryPart (count : Nat) (verb : Text) : List Text :=
  if count = 0 then [] else [counted count "file".toList "files".toList ++ [' '] ++ verb]

/-- The verbs for files that changed, stayed, and failed. -/
def summaryVerbs : Action → Text × Text × Text
  | .format => ("reformatted".toList, "left unchanged".toList, "failed to reformat".toList)
  | .check =>
    ("would be reformatted".toList, "would be left unchanged".toList,
      "would fail to reformat".toList)

/-- The parts of the summary. -/
def summaryParts (r : BatchResult) (action : Action) : List Text :=
  summaryPart (r.count .reformatted + r.count .wouldReformat) (summaryVerbs action).1 ++
    summaryPart (r.count .unchanged) (summaryVerbs action).2.1 ++
    summaryPart r.failures.length (summaryVerbs action).2.2

/-- What is said when no file has an outcome. -/
def nothingProcessed : Text := "No notebooks were processed.".toList

/-- The summary of a run. -/
def summary (r : BatchResult) (action : Action) : Text :=
  if r.summaryParts action = [] then nothingProcessed
  else Text.intercalate ", ".toList (r.summaryParts action) ++ ['.']

end BatchResult
end NotebookTidy
