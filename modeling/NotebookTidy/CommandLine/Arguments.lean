import NotebookTidy.Formatter.TargetVersion
import NotebookTidy.Text.Decimal

/-!
# Command lines

A command line is a list of arguments: targets, switches that are on or off, and settings with a
value.  Arguments are taken one by one (`Progress.take`), and the first that is faulty ends the
reading; a question for the help or the version is answered where it stands and whatever would
come after it.  Only at the end is it asked whether there is a target at all, and whether the
switches go together.

Switches and settings are given once, the target version excepted.
-/

namespace NotebookTidy

/-- What a command line asks for. -/
structure Arguments where
  /-- Paths of notebooks and directories. -/
  targets : List Text
  /-- Files are only looked at. -/
  check : Bool
  /-- The greatest number of characters on a line. -/
  lineLength : Option Nat
  /-- Quotes and string markers are left as they are. -/
  skipStringNormalization : Bool
  /-- The versions that the code should run on. -/
  targetVersions : List TargetVersion
  /-- The code is an interface description. -/
  isStub : Bool
  /-- How many notebooks may be under way at once. -/
  workers : Option Nat
  /-- Rejected code is shown. -/
  showInvalidCode : Bool
  /-- The program to format with. -/
  program : Option Text
  /-- Little is said. -/
  quiet : Bool
  /-- Much is said. -/
  verbose : Bool
deriving Repr, DecidableEq

/-- What a command line means. -/
inductive Invocation where
  /-- A run. -/
  | run (arguments : Arguments)
  /-- The version is asked for. -/
  | version
  /-- The help is asked for. -/
  | help
  /-- The command line is faulty. -/
  | faulty
deriving Repr, DecidableEq

namespace Arguments

/-- Nothing is given. -/
def empty : Arguments := ⟨[], false, none, false, [], false, none, false, none, false, false⟩

/-- What is on or off. -/
inductive Switch where
  | check
  | skipStringNormalization
  | stub
  | showInvalidCode
  | quiet
  | verbose
  | version
  | help
deriving Repr, DecidableEq

/-- What has a value. -/
inductive Setting where
  | lineLength
  | targetVersion
  | workers
  | program
deriving Repr, DecidableEq

/-- What an option stands for. -/
inductive Meaning where
  | switch (s : Switch)
  | setting (s : Setting)
deriving Repr, DecidableEq

/-- The options of one letter. -/
def letter? : Char → Option Meaning
  | 'l' => some (.setting .lineLength)
  | 'S' => some (.switch .skipStringNormalization)
  | 's' => some (.switch .skipStringNormalization)
  | 't' => some (.setting .targetVersion)
  | 'w' => some (.setting .workers)
  | 'q' => some (.switch .quiet)
  | 'v' => some (.switch .verbose)
  | 'h' => some (.switch .help)
  | 'V' => some (.switch .version)
  | _ => none

/-- The options with a name, which follows two dashes. -/
def named : List (Text × Meaning) :=
  [("check".toList, .switch .check), ("line-length".toList, .setting .lineLength),
    ("skip-string-normalization".toList, .switch .skipStringNormalization),
    ("target-version".toList, .setting .targetVersion), ("pyi".toList, .switch .stub),
    ("workers".toList, .setting .workers),
    ("show-invalid-code".toList, .switch .showInvalidCode),
    ("black".toList, .setting .program), ("quiet".toList, .switch .quiet),
    ("verbose".toList, .switch .verbose), ("help".toList, .switch .help),
    ("version".toList, .switch .version)]

/-- The meaning of a name. -/
def name? (name : Text) : Option Meaning :=
  (named.find? fun entry => entry.1 = name).map Prod.snd

/-- A count that a machine word holds: digits, perhaps after a plus sign. -/
def count? (t : Text) : Option Nat :=
  match Decimal.read? ((Text.after? ['+'] t).getD t) with
  | some n => if n < UInt64.size then some n else none
  | none => none

/-- The arguments with a switch turned on that was off. -/
def turnOn? (a : Arguments) : Switch → Except Invocation Arguments
  | .check => if a.check then .error .faulty else .ok { a with check := true }
  | .skipStringNormalization =>
    if a.skipStringNormalization then .error .faulty
    else .ok { a with skipStringNormalization := true }
  | .stub => if a.isStub then .error .faulty else .ok { a with isStub := true }
  | .showInvalidCode =>
    if a.showInvalidCode then .error .faulty else .ok { a with showInvalidCode := true }
  | .quiet => if a.quiet then .error .faulty else .ok { a with quiet := true }
  | .verbose => if a.verbose then .error .faulty else .ok { a with verbose := true }
  | .version => .error .version
  | .help => .error .help

/-- The arguments with a value given to a setting that has none; target versions add up. -/
def set? (a : Arguments) (value : Text) : Setting → Except Invocation Arguments
  | .lineLength =>
    match a.lineLength, count? value with
    | none, some n => .ok { a with lineLength := some n }
    | _, _ => .error .faulty
  | .targetVersion =>
    match TargetVersion.ofName? value with
    | some v => .ok { a with targetVersions := a.targetVersions ++ [v] }
    | none => .error .faulty
  | .workers =>
    match a.workers, count? value with
    | none, some n => .ok { a with workers := some n }
    | _, _ => .error .faulty
  | .program =>
    if a.program = none ∧ value ≠ [] then .ok { a with program := some value }
    else .error .faulty

/-- The arguments with one more target. -/
def addTarget? (a : Arguments) (target : Text) : Except Invocation Arguments :=
  if target = [] then .error .faulty else .ok { a with targets := a.targets ++ [target] }

/-- How far the reading of a command line got. -/
structure Progress where
  /-- What has been given. -/
  arguments : Arguments
  /-- A setting that waits for its value. -/
  pending : Option Setting
  /-- Options have ended; all that comes is a target. -/
  targetsOnly : Bool
deriving Repr, DecidableEq

namespace Progress

/-- Nothing has been read. -/
def start : Progress := ⟨.empty, none, false⟩

/-- The letters after one dash: switches, and at the end perhaps a setting, whose value is what
is left, or else the next argument. -/
def takeLetters (p : Progress) : Text → Except Invocation Progress
  | [] => .ok p
  | c :: rest =>
    match letter? c with
    | none => .error .faulty
    | some (.switch s) => do
      let a ← p.arguments.turnOn? s
      takeLetters { p with arguments := a } rest
    | some (.setting s) =>
      match rest with
      | [] => .ok { p with pending := some s }
      | '=' :: value => (p.arguments.set? value s).map fun a => { p with arguments := a }
      | value => (p.arguments.set? value s).map fun a => { p with arguments := a }

/-- What follows two dashes: a name, and perhaps a value after an equals sign. -/
def takeName (p : Progress) (t : Text) : Except Invocation Progress :=
  match name? (t.takeWhile (· ≠ '=')), t.dropWhile (· ≠ '=') with
  | some (.switch s), [] => (p.arguments.turnOn? s).map fun a => { p with arguments := a }
  | some (.setting s), [] => .ok { p with pending := some s }
  | some (.setting s), _ :: value =>
    (p.arguments.set? value s).map fun a => { p with arguments := a }
  | _, _ => .error .faulty

/-- **One argument more.** -/
def take (p : Progress) (argument : Text) : Except Invocation Progress :=
  if p.targetsOnly then
    (p.arguments.addTarget? argument).map fun a => { p with arguments := a }
  else
    match p.pending, argument with
    | none, ['-', '-'] => .ok { p with targetsOnly := true }
    | none, '-' :: '-' :: rest => p.takeName rest
    | none, '-' :: c :: rest => p.takeLetters (c :: rest)
    | none, target => (p.arguments.addTarget? target).map fun a => { p with arguments := a }
    | some _, '-' :: _ :: _ => .error .faulty
    | some s, value =>
      (p.arguments.set? value s).map fun a => { p with arguments := a, pending := none }

/-- The end of a command line: no value is missing, there is a target, and the switches go
together. -/
def finish (p : Progress) : Invocation :=
  if p.pending.isNone ∧ p.arguments.targets ≠ [] ∧ ¬(p.arguments.quiet ∧ p.arguments.verbose) then
    .run p.arguments
  else .faulty

end Progress

/-- **What a command line means.** -/
def read (arguments : List Text) : Invocation :=
  match arguments.foldlM Progress.take .start with
  | .ok p => p.finish
  | .error invocation => invocation

end Arguments
end NotebookTidy
