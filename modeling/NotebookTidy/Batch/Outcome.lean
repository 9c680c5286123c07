import NotebookTidy.Formatter.Basic
import NotebookTidy.Notebook.Error
import NotebookTidy.Rejections

/-!
# Outcomes

What becomes of one notebook file: what was found, or the error that kept it from being processed.
Errors before any file is processed (a target that is not there, a file that is no notebook) are
of the same type, because a run ends with one or with outcomes.
-/

namespace NotebookTidy

/-- What is to be done with notebooks. -/
inductive Action where
  /-- They are formatted and written back. -/
  | format
  /-- They are only looked at. -/
  | check
deriving Repr, DecidableEq

/-- What was found or done. -/
inductive Verdict where
  /-- The file was written anew. -/
  | reformatted
  /-- The file would have been written anew. -/
  | wouldReformat
  /-- The file is as it should be. -/
  | unchanged
deriving Repr, DecidableEq

/-- The words for a verdict. -/
def Verdict.text : Verdict → Text
  | .reformatted => "reformatted".toList
  | .wouldReformat => "would reformat".toList
  | .unchanged => "unchanged".toList

/-- What was found in one file. -/
structure Finding where
  /-- The path of the file. -/
  path : Text
  /-- What was found or done. -/
  verdict : Verdict
  /-- The code in it that could not be parsed. -/
  rejections : Rejections
deriving Repr, DecidableEq

/-- Why a file was not processed, or a run not begun. -/
inductive RunError where
  /-- Targets that are not there. -/
  | missingTargets (paths : List Text)
  /-- A target that is no notebook. -/
  | invalidExtension (path : Text)
  /-- A directory that cannot be searched. -/
  | expansion (path message : Text)
  /-- A notebook that cannot be read. -/
  | notebook (path : Text) (error : NotebookError)
  /-- A notebook whose code the formatter failed on. -/
  | formatter (path : Text) (error : FormatterError)
  /-- A file that cannot be written. -/
  | write (path : Text) (fault : IoFault)
  /-- The user interrupted the run. -/
  | cancelled
deriving Repr, DecidableEq

/-- The wording of an error. -/
def RunError.message : RunError → Text
  | .missingTargets paths =>
    "Paths [".toList ++ Text.intercalate ", ".toList paths ++ "] do not exist".toList
  | .invalidExtension path =>
    "File ".toList ++ path ++ " does not have extension .ipynb".toList
  | .expansion path message =>
    "Failed to expand directory ".toList ++ path ++ ": ".toList ++ message
  | .notebook path error => "Cannot read notebook ".toList ++ path ++ ": ".toList ++ error.message
  | .formatter path error => "Cannot format ".toList ++ path ++ ": ".toList ++ error.message
  | .write path fault => "Cannot write ".toList ++ path ++ ": ".toList ++ fault.message
  | .cancelled => "Cancelled".toList

/-- What becomes of one file. -/
abbrev Outcome := Except RunError Finding

end NotebookTidy
