import NotebookTidy.CommandLine.Wording
import NotebookTidy.Discovery
import NotebookTidy.Formatter.Black
import NotebookTidy.Settings.Resolve

/-!
# A run from its command line

A run goes through stages, and the first that fails decides how it ends: the settings are made,
the notebooks found, the formatter asked for its version, the notebooks read and processed, and
the user told.  Nothing is changed and no code is formatted before the last stage but one, so a
run that ends in an error has changed nothing.

Until the formatter has told its version, an interruption ends the run at once and without an exit
code.  After that a first interruption cancels the run, and a second one ends it at once, without a
report.
-/

namespace NotebookTidy

/-- What a run finds around it. -/
structure Surroundings where
  /-- The file system. -/
  disk : FileSystem
  /-- The user's home directory. -/
  home : Text
  /-- The directories in which programs are looked for by name. -/
  searchPath : List Text
  /-- The programs that are installed, each at a location. -/
  programs : List (Location × Program)

/-- How a run ended. -/
structure RunEnd where
  /-- The exit code, or `none` if the user's interruption left none. -/
  code : Option Nat
  /-- The standard output. -/
  output : Text
  /-- The standard error. -/
  complaint : Text
  /-- The world afterwards. -/
  world : World

/-- Why a run was not carried out. -/
inductive CommandError where
  /-- A configured name that no version has. -/
  | unknownVersion (name : Text)
  /-- The targets or the notebooks are at fault. -/
  | run (error : RunError)
  /-- The formatter cannot be used. -/
  | formatter (error : FormatterError)
deriving Repr, DecidableEq

namespace CommandError

/-- The wording of an error. -/
def message : CommandError → Text
  | .unknownVersion name =>
    "Invalid target_versions in config: ".toList ++ TargetVersion.unknownMessage name
  | .run error => error.message
  | .formatter error => error.message

/-- The exit code of a run that the user cancelled. -/
def cancelledCode : Nat := 130

/-- The exit code of an error. -/
def code : CommandError → Nat
  | .unknownVersion _ => 1
  | .run (.missingTargets _) => 3
  | .run (.invalidExtension _) => 4
  | .run (.notebook _ _) => 5
  | .run .cancelled => cancelledCode
  | .run (.expansion _ _) => 1
  | .run (.formatter _ _) => 1
  | .run (.write _ _) => 1
  | .formatter (.notFound _) => 5
  | .formatter .interrupted => cancelledCode
  | .formatter _ => 1

/-- The targets themselves are at fault, so the help may help. -/
def pointsToHelp : CommandError → Bool
  | .run (.missingTargets _) => true
  | .run (.invalidExtension _) => true
  | _ => false

/-- The lines on an error. -/
def lines (e : CommandError) : List Text :=
  ("Error: ".toList ++ e.message) ::
    (if e.pointsToHelp then [[], "Try 'jblack --help' for help.".toList] else [])

end CommandError

namespace Surroundings

/-- The program at the location that a path leads to. -/
def programAt (s : Surroundings) (path : Text) : Except IoFault Program := do
  let location ← s.disk.resolve path
  match s.programs.find? fun entry => entry.1 = location with
  | some (_, program) => .ok program
  | none => .error .permissionDenied

/-- The program with a name in the first directory that has one.  A directory in which the name
cannot be started is passed over, too, but the fault is remembered. -/
def search (s : Surroundings) (name : Text) : List Text → Except IoFault Program
  | [] => .error .notFound
  | directory :: rest =>
    match s.programAt (Path.join directory name) with
    | .error .notFound => s.search name rest
    | .error .notADirectory => s.search name rest
    | .error .permissionDenied =>
      match s.search name rest with
      | .error .notFound => .error .permissionDenied
      | found => found
    | found => found

/-- The program that a user means: by a path, or by a name. -/
def program (s : Surroundings) (name : Text) : Except IoFault Program :=
  if '\x00' ∈ name then .error .nulInProgram
  else if name = [] then .error .notFound
  else if Text.contains ['/'] name then s.programAt name
  else if FileSystem.nameLimit < (Utf8.encode name).length then .error .nameTooLong
  else s.search name s.searchPath

/-! ## Configuration files -/

/-- The name of configuration files. -/
def configName : Text := ".jblack.toml".toList

/-- Why a configuration file is of no use. -/
inductive ConfigFault where
  /-- It cannot be read as text. -/
  | unreadable
  /-- Its text is no configuration. -/
  | invalid
deriving Repr, DecidableEq

/-- The configuration in a file, if the file is there. -/
def config? (s : Surroundings) (path : Text) : Option (Except ConfigFault Configuration) :=
  if s.disk.pathExists path then
    some <|
      match s.disk.read path with
      | .error _ => .error .unreadable
      | .ok octets =>
        match Utf8.decode octets with
        | .error _ => .error .unreadable
        | .ok document =>
          match Configuration.read? document with
          | none => .error .invalid
          | some config => .ok config
  else none

/-- The configuration in a file; one that is of no use counts as absent. -/
def usable? : Option (Except ConfigFault Configuration) → Option Configuration
  | some (.ok config) => some config
  | _ => none

/-- The lines on a configuration file of a kind that is of no use. -/
def configLines (kind path : Text) : Option (Except ConfigFault Configuration) → List Text
  | some (.error fault) =>
    let warning (reason : Text) : Text :=
      "Warning: Failed to load ".toList ++ kind ++ " config from ".toList ++ path ++ ": ".toList ++
        reason
    match fault with
    | .unreadable => [warning ("Failed to read config file: ".toList ++ path)]
    | .invalid =>
      ["Error: Failed to parse config file: ".toList ++ path,
        "Parse error: TOML parse error".toList, [],
        "Help: Configuration file syntax:".toList, "  [format]".toList,
        "  line_length = 100".toList, "  target_versions = [\"py310\", \"py311\"]".toList,
        "  workers = 4".toList, warning "Failed to parse config file: TOML parse error".toList]
  | _ => []

/-- The path of the user's configuration file. -/
def userConfigPath (s : Surroundings) : Text := Path.join s.home configName

/-- The configuration of user and project. -/
def config (s : Surroundings) : Configuration :=
  Configuration.merge (usable? (s.config? s.userConfigPath)) (usable? (s.config? configName))

/-- The lines on configuration files. -/
def allConfigLines (s : Surroundings) : List Text :=
  configLines "user".toList s.userConfigPath (s.config? s.userConfigPath) ++
    configLines "project".toList configName (s.config? configName)

/-! ## The stages of a run -/

/-- What is known before any notebook is read. -/
structure Prepared where
  /-- The settings. -/
  settings : Settings
  /-- The paths of the notebooks. -/
  paths : List Text
  /-- The formatter. -/
  formatter : Formatter
  /-- The version that the formatter says it has. -/
  version : Text

/-- How the stages before the notebooks are read end, if none of them fails. -/
inductive Preparation where
  /-- There are no notebooks, so nothing is left to do. -/
  | noNotebooks
  /-- The user interrupted while the formatter was asked for its version. -/
  | interrupted
  /-- The notebooks can be read. -/
  | ready (prepared : Prepared)

/-- The configuration that counts for formatting. -/
def configured (s : Surroundings) : FormatSection := s.config.format.getD .empty

/-- **The stages before the notebooks are read.**  An interruption of the last of them counts
whatever the formatter answers. -/
def prepare (s : Surroundings) (a : Arguments) : Except CommandError Preparation := do
  let settings ← (Settings.resolve a s.configured).mapError .unknownVersion
  let paths ← (Discovery.discover s.disk a.targets).mapError .run
  let program := s.program settings.program
  if paths = [] then .ok .noNotebooks
  else if 0 < Black.probeInterrupts program then .ok .interrupted
  else
    let version ← (Black.probe settings.program program).mapError .formatter
    .ok (.ready ⟨settings, paths, Black.formatter settings.program program, version⟩)

/-- The line on the formatter and what it will do. -/
def versionLine (version : Text) (files workers : Nat) : Text :=
  "Info: ".toList ++ version ++ " on ".toList ++ Decimal.write files ++
    " notebook(s) with ".toList ++ Decimal.write workers ++ " worker(s)".toList

/-- The exit code of a run that was carried out. -/
def resultCode (r : BatchResult) : Nat :=
  if r.cancelled then CommandError.cancelledCode else if r.isClean then 0 else 1

/-- The text of lines. -/
def textOf (lines : List Text) : Text := lines.flatMap (· ++ ['\n'])

/-- Interruptions that a run bears with. -/
def patience : Nat := 1

/-- **A run with these arguments.** -/
def run (s : Surroundings) (a : Arguments) : RunEnd :=
  let verbosity := Verbosity.ofSwitches a.quiet a.verbose
  let w := World.start s.disk
  let ended (code : Option Nat) (lines : List Text) (w : World) : RunEnd :=
    ⟨code, [], textOf (s.allConfigLines ++ lines), w⟩
  match s.prepare a with
  | .error error => ended error.code error.lines w
  | .ok .interrupted => ended none [] w
  | .ok .noNotebooks =>
    ended (some 0) (if verbosity = .quiet then [] else ["Warning: No notebooks found".toList]) w
  | .ok (.ready p) =>
    let plan := p.settings.plan
    let opening :=
      if verbosity = .verbose then [versionLine p.version p.paths.length plan.workers] else []
    match StoredNotebook.loadAll s.disk p.paths with
    | .error error =>
      let error := CommandError.run error
      ended error.code (opening ++ error.lines) w
    | .ok files =>
      match (Batch.inOrder plan files).runWhile p.formatter patience w with
      | (none, w) => ended CommandError.cancelledCode opening w
      | (some results, w) =>
        let result := Batch.result results w
        ended (resultCode result)
          (opening ++ result.lines plan.action verbosity p.settings.showInvalidCode) w

/-- The name of the program and its version. -/
def nameAndVersion : Text := "jblack 0.3.0\n".toList

/-- How the program is used. -/
def usage : Text :=
  "Format Jupyter notebooks with Black\n\nUsage: jblack [OPTIONS] <TARGETS>...\n".toList

/-- **A command line carried out.** -/
def execute (s : Surroundings) (arguments : List Text) : RunEnd :=
  let w := World.start s.disk
  match Arguments.read arguments with
  | .run a => s.run a
  | .version => ⟨some 0, nameAndVersion, [], w⟩
  | .help => ⟨some 0, usage, [], w⟩
  | .faulty => ⟨some 2, [], usage, w⟩

end Surroundings
end NotebookTidy
