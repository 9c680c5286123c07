import NotebookTidy.Formatter.Spacing

/-!
# Programs

A program is started with arguments and an input; it ends with an exit code, or a signal ends it,
and leaves two streams of octets.  Like a formatter, it may answer in the light of what it was
started with before, and the user may interrupt meanwhile.
-/

namespace NotebookTidy

/-- How a program ended. -/
inductive ProgramEnd where
  /-- By itself, with an exit code. -/
  | exited (code : Int)
  /-- By a signal. -/
  | killed
deriving Repr, DecidableEq

/-- The end of a program that exits with a number, of which the system keeps the last eight bits. -/
def ProgramEnd.ofExit (number : Int) : ProgramEnd := .exited (number % 256)

/-- What a program leaves. -/
structure ProgramResult where
  /-- How it ended. -/
  ending : ProgramEnd
  /-- Its standard output. -/
  output : Octets
  /-- Its standard error. -/
  complaint : Octets
deriving Repr, DecidableEq

/-- The start of a program. -/
structure Launch where
  /-- Its arguments. -/
  arguments : List Text
  /-- Its standard input. -/
  input : Text
deriving Repr, DecidableEq

/-- What a program leaves, and how often the user interrupted meanwhile. -/
structure ProgramReply where
  /-- What it leaves. -/
  result : ProgramResult
  /-- Interruptions that came meanwhile. -/
  interrupts : Nat
deriving Repr, DecidableEq

/-- A program: its reply to every launch, given the launches before it, the latest first. -/
abbrev Program := List Launch → Launch → ProgramReply

/-- The argument that asks a program for its version. -/
def versionArgument : Text := "--version".toList

namespace Spacing

/-- The spacing formatter as a program leaves its answer: the code on the output, or a complaint
and the exit code that says why. -/
def asProgram (source : Text) : ProgramResult :=
  match format source with
  | .ok code => ⟨.exited 0, Utf8.encode code, []⟩
  | .error (.cannotParse message _) =>
    ⟨.exited 123, [], Utf8.encode ("error: cannot format -: ".toList ++ message ++ ['\n'])⟩
  | .error (.failed _ complaint) => ⟨.exited 1, [], Utf8.encode (complaint ++ ['\n'])⟩
  | .error error => ⟨.exited 1, [], Utf8.encode (error.message ++ ['\n'])⟩

end Spacing
end NotebookTidy
