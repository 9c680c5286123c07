import NotebookTidy.Batch.Basic
import NotebookTidy.CommandLine.Arguments
import NotebookTidy.Settings.Configuration

/-!
# The settings of a run

What is said on the command line comes before what is configured, and that before the defaults,
key by key.  Switches can only be turned on by the command line, so a switch and its key are
joined by "or".  Versions named on the command line hide the configured list; a configured list
is read only if it counts, so only then can a name in it be unknown.
-/

namespace NotebookTidy

/-- The settings of a run. -/
structure Settings where
  /-- What is asked of the run over all notebooks. -/
  plan : BatchPlan
  /-- The program to format with. -/
  program : Text
  /-- Rejected code is shown. -/
  showInvalidCode : Bool
deriving Repr, DecidableEq

namespace Settings

/-- The program to format with, unless another is named. -/
def defaultProgram : Text := "black".toList

/-- The versions with these names, or the first name that no version has. -/
def versionsOf : List Text → Except Text (List TargetVersion)
  | [] => .ok []
  | name :: rest =>
    match TargetVersion.ofName? name with
    | none => .error name
    | some v => (versionsOf rest).map (v :: ·)

/-- The versions that the code should run on, or a configured name that no version has. -/
def targetVersions (a : Arguments) (c : FormatSection) : Except Text VersionSet :=
  if a.targetVersions = [] then (versionsOf (c.targetVersions.getD [])).map VersionSet.ofList
  else .ok (VersionSet.ofList a.targetVersions)

/-- The settings of a run on these versions. -/
def on (versions : VersionSet) (a : Arguments) (c : FormatSection) : Settings where
  plan :=
    { action := if a.check then .check else .format
      workers := max 1 ((a.workers.or c.workers).getD 1)
      mode :=
        { lineLength := (a.lineLength.or c.lineLength).getD defaultLineLength
          stringNormalization :=
            !(a.skipStringNormalization || c.skipStringNormalization.getD false)
          targetVersions := versions
          isStub := a.isStub || c.isStub.getD false } }
  program := (a.program.or c.program).getD defaultProgram
  showInvalidCode := a.showInvalidCode || c.showInvalidCode.getD false

/-- **The settings that a command line and a configuration make**, or a configured name that no
version has. -/
def resolve (a : Arguments) (c : FormatSection) : Except Text Settings := do
  let versions ← targetVersions a c
  .ok (on versions a c)

end Settings
end NotebookTidy
