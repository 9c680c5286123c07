import NotebookTidy.Formatter.TargetVersion
import NotebookTidy.IoFault
import NotebookTidy.Text.Utf8

/-!
# Formatters

A **formatter** answers requests to format a piece of code in a mode: with the formatted code or
with the cause of a failure.  One cause is special: code that *cannot be parsed* is the code's own
fault and never ends a run, all other failures are the formatter's.

What a formatter answers may depend on all requests made before (`history`), and while it answers
the user may interrupt the run, any number of times.  The formatters whose answers depend on
nothing but the request are the **steady** ones (`Formatter.ofFunction`).
-/

namespace NotebookTidy

/-- How code should be formatted. -/
structure Mode where
  /-- The greatest number of characters on a line. -/
  lineLength : Nat
  /-- Quotes and string markers are made uniform. -/
  stringNormalization : Bool
  /-- The versions that the code should run on. -/
  targetVersions : VersionSet
  /-- The code is an interface description. -/
  isStub : Bool
deriving Repr, DecidableEq

/-- The line length of formatters that are not told any. -/
def defaultLineLength : Nat := 88

/-- The mode of formatters that are not told any. -/
def Mode.standard : Mode := ⟨defaultLineLength, true, .empty, false⟩

/-- Why code was not formatted. -/
inductive FormatterError where
  /-- The code is faulty; the line that was quoted as the first fault, if one was. -/
  | cannotParse (message : Text) (line : Option Text)
  /-- There is no such formatter. -/
  | notFound (program : Text)
  /-- The formatter gave up, with an exit code if it got that far. -/
  | failed (code : Option Int) (complaint : Text)
  /-- The formatter was stopped, or the run was. -/
  | interrupted
  /-- The formatter could not be started or talked to. -/
  | io (fault : IoFault)
  /-- The answer is not text. -/
  | encoding (fault : Utf8.Fault)
deriving Repr, DecidableEq

namespace FormatterError

/-- The code is at fault and not the formatter. -/
def blamesCode : FormatterError → Bool
  | .cannotParse _ _ => true
  | _ => false

/-- An exit code that there may not be. -/
def codeText : Option Int → Text
  | none => "None".toList
  | some (.ofNat n) => "Some(".toList ++ Decimal.write n ++ ")".toList
  | some (.negSucc n) => "Some(-".toList ++ Decimal.write (n + 1) ++ ")".toList

/-- The wording of an error. -/
def message : FormatterError → Text
  | .cannotParse message _ => message
  | .notFound program =>
    "Formatter `".toList ++ program ++
      "` not found. Please install Black: <https://black.readthedocs.io>".toList
  | .failed code complaint =>
    "Formatter failed (exit code ".toList ++ codeText code ++ "): ".toList ++ complaint
  | .interrupted => "Formatter was interrupted".toList
  | .io fault => "IO error: ".toList ++ fault.message
  | .encoding fault => "UTF-8 error: ".toList ++ fault.message

end FormatterError

/-- A request to format code. -/
structure Call where
  /-- How to format it. -/
  mode : Mode
  /-- The code. -/
  source : Text
deriving Repr, DecidableEq

/-- What a formatter makes of code. -/
abbrev Formatted := Except FormatterError Text

/-- An answer, and how often the user interrupted while it was made. -/
structure Answer where
  /-- The formatted code or the failure. -/
  result : Formatted
  /-- Interruptions that came meanwhile. -/
  interrupts : Nat

/-- A formatter: an answer to every request, given the requests before it, the latest first. -/
abbrev Formatter := List Call → Call → Answer

namespace Formatter

/-- The formatter whose answers depend on the request only, and which nobody interrupts. -/
def ofFunction (f : Call → Formatted) : Formatter := fun _ call => ⟨f call, 0⟩

/-- Answers depend on the request only, and nobody interrupts. -/
def Steady (f : Formatter) : Prop := ∃ g : Call → Formatted, f = ofFunction g

end Formatter
end NotebookTidy
