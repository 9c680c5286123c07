import NotebookTidy.Formatter.Program
import NotebookTidy.Text.Decimal

/-!
# Black

Black is a formatter for Python code, run as a program: the mode goes into its arguments, the code
into its input, and the formatted code is its output.  It ends with exit code 123 when it cannot
format its input, and if the code could not be parsed it says so on its standard error, with row
and column and the offending line:

```
error: cannot format -: Cannot parse: 1:0: %matplotlib inline
error: cannot format -: Cannot parse for target version Python 3.12: 2:4:     !ls
```

`quotedLine?` finds the offending line in such a line of the complaint.
-/

namespace NotebookTidy
namespace Black

/-! ## What Black is asked -/

/-- The options that say a mode. -/
def modeArguments (mode : Mode) : List Text :=
  ["--line-length".toList, Decimal.write mode.lineLength] ++
    (if mode.stringNormalization then [] else ["--skip-string-normalization".toList]) ++
    (mode.targetVersions.members.flatMap fun v => ["--target-version".toList, v.name]) ++
    (if mode.isStub then ["--pyi".toList] else [])

/-- The arguments to format the input in a mode. -/
def arguments (mode : Mode) : List Text := modeArguments mode ++ ["-q".toList, "-".toList]

/-- What arguments ask for, given what the arguments before them asked for: the mode, if they are
sound and name the standard input at their end.  Options may come in any order. -/
def modeFrom? (mode : Mode) : List Text → Option Mode
  | [] => none
  | [argument] => if argument = "-".toList then some mode else none
  | option :: value :: rest =>
    if option = "-q".toList then modeFrom? mode (value :: rest)
    else if option = "--skip-string-normalization".toList then
      modeFrom? { mode with stringNormalization := false } (value :: rest)
    else if option = "--pyi".toList then modeFrom? { mode with isStub := true } (value :: rest)
    else if option = "--line-length".toList then
      (Decimal.read? value).bind fun n => modeFrom? { mode with lineLength := n } rest
    else if option = "--target-version".toList then
      (TargetVersion.ofName? value).bind fun v =>
        modeFrom? { mode with targetVersions := mode.targetVersions.insert v } rest
    else none

/-- **The mode that Black takes from its arguments.** -/
def mode? (arguments : List Text) : Option Mode := modeFrom? .standard arguments

/-- The launch for a request. -/
def launch (call : Call) : Launch := ⟨arguments call.mode, call.source⟩

/-! ## What Black answers -/

/-- The exit code for input that cannot be formatted. -/
def cannotFormat : Int := 123

/-- What follows a run of digits, at least one, and a colon. -/
def afterNumber? (t : Text) : Option Text :=
  if (t.takeWhile Text.isDecimalDigit) = [] then none
  else Text.after? [':'] (t.dropWhile Text.isDecimalDigit)

/-- What follows the part that may name a target version: ` for target version ` with a name, or
nothing. -/
def afterVersion (t : Text) : Text :=
  match Text.after? " for target version ".toList t with
  | none => t
  | some rest => if rest.takeWhile (· ≠ ':') = [] then t else rest.dropWhile (· ≠ ':')

/-- The offending line, in a text that starts with the announcement of a fault. -/
def quotedAtStart? (t : Text) : Option Text := do
  let rest ← Text.after? "Cannot parse".toList t
  let rest ← Text.after? ": ".toList (afterVersion rest)
  let rest ← afterNumber? rest
  let rest ← afterNumber? rest
  match rest with
  | ' ' :: line => some line
  | line => some line

/-- The offending line, wherever the announcement starts; the first place counts. -/
def quotedLine? : Text → Option Text
  | [] => none
  | c :: rest =>
    match quotedAtStart? (c :: rest) with
    | some line => some line
    | none => quotedLine? rest

/-- A line of complaint without the words that every complaint starts with. -/
def withoutLeadIn (line : Text) : Text :=
  match Text.after? "error: cannot format ".toList line with
  | none => line
  | some rest => (Text.after? ": ".toList (rest.dropWhile (· ≠ ':'))).getD line

/-- The first line of a complaint that quotes an offending line, as an error. -/
def parseFailure? : List Text → Option FormatterError
  | [] => none
  | line :: rest =>
    match quotedLine? line with
    | some quoted => some (.cannotParse (withoutLeadIn (Text.trim line)) (some quoted))
    | none => parseFailure? rest

/-- **What Black's result means.** -/
def interpret (result : ProgramResult) : Formatted :=
  let complaint := Utf8.decodeLossy result.complaint
  match result.ending with
  | .killed => .error .interrupted
  | .exited code =>
    if code = 0 then (Utf8.decode result.output).mapError .encoding
    else
      let failed := FormatterError.failed (some code) (Text.trim complaint)
      if code = cannotFormat then .error ((parseFailure? (Text.lines complaint)).getD failed)
      else .error failed

/-- The failure to start a program that the user named. -/
def startFailure (name : Text) : IoFault → FormatterError
  | .notFound => .notFound name
  | fault => .io fault

/-- **Black as a formatter**: the program under a name, or the reason why it cannot be started. -/
def formatter (name : Text) : Except IoFault Program → Formatter
  | .error fault => fun _ _ => ⟨.error (startFailure name fault), 0⟩
  | .ok program => fun history call =>
    let reply := program (history.map launch) (launch call)
    ⟨interpret reply.result, reply.interrupts⟩

/-- The start of a program that asks it for its version. -/
def probeLaunch : Launch := ⟨[versionArgument], []⟩

/-- The version that a program says it has, if it can be started and answers. -/
def probe (name : Text) : Except IoFault Program → Except FormatterError Text
  | .error _ => .error (.notFound name)
  | .ok program =>
    let result := (program [] probeLaunch).result
    match result.ending with
    | .exited 0 => .ok ((Text.lines (Utf8.decodeLossy result.output)).headD "unknown".toList)
    | _ => .error (.notFound name)

/-- Interruptions that come while a program is asked for its version.  One that cannot be started
leaves no time for any. -/
def probeInterrupts : Except IoFault Program → Nat
  | .error _ => 0
  | .ok program => (program [] probeLaunch).interrupts

end Black
end NotebookTidy
