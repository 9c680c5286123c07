import NotebookTidy.Batch.Summary
import NotebookTidy.Text.Fragment

/-!
# Telling the user about a run

The lines that tell about a run: one for each file that there is something to say about, the
rejected code or a hint at it, and two closing lines.  How much is said depends on the verbosity;
errors and files that would be reformatted are always told.
-/

namespace NotebookTidy

/-- How much is said. -/
inductive Verbosity where
  | quiet
  | normal
  | verbose
deriving Repr, DecidableEq

/-- The verbosity that two switches ask for. -/
def Verbosity.ofSwitches (quiet verbose : Bool) : Verbosity :=
  if quiet then .quiet else if verbose then .verbose else .normal

namespace BatchResult

/-- The line on one outcome, if there is one. -/
def outcomeLines (verbosity : Verbosity) : Outcome → List Text
  | .error error => ["Error: ".toList ++ error.message]
  | .ok finding =>
    let line := finding.verdict.text ++ [' '] ++ finding.path
    match finding.verdict with
    | .reformatted => if verbosity = .quiet then [] else [line]
    | .wouldReformat => [line]
    | .unchanged => if verbosity = .verbose then [line] else []

/-- The lines on rejected code: all of it, or a hint. -/
def rejectionLines (verbosity : Verbosity) (showCode : Bool) (r : Rejections) : List Text :=
  if r.entries = [] then []
  else if showCode then
    r.entries.flatMap fun (code, message) =>
      ("Invalid code: ".toList ++ message) :: (Text.lines code).map ("    ".toList ++ ·)
  else if verbosity = .quiet then []
  else
    ["Warning: ".toList ++ counted r.size "code block".toList "code blocks".toList ++
      " left unchanged because it could not be parsed; ".toList ++
      "rerun with --show-invalid-code for details".toList]

/-- The headline for a clean run. -/
def praise : Text := "All done! ✨ 🍰 ✨".toList

/-- The headline for a run that is not clean. -/
def regret : Text := "Oh no! 💥 💔 💥".toList

/-- **The lines on a run.** -/
def lines (r : BatchResult) (action : Action) (verbosity : Verbosity) (showCode : Bool) :
    List Text :=
  r.outcomes.flatMap (outcomeLines verbosity) ++ rejectionLines verbosity showCode r.rejections ++
    (if r.cancelled then ["Warning: Caught keyboard interrupt from user".toList] else []) ++
    (if verbosity = .quiet then []
      else [if r.isClean then praise else regret, r.summary action])

end BatchResult
end NotebookTidy
