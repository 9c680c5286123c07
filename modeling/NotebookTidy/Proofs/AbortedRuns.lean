import NotebookTidy.CommandLine.Run
import NotebookTidy.Proofs.FoundNotebooks
import NotebookTidy.Proofs.NamedVersions
import NotebookTidy.Proofs.ReplacedFiles

/-!
# Runs that are not carried out

A run may stop before it has processed anything: because of a faulty configuration or target, for
want of notebooks, because its formatter cannot be used, or because a notebook cannot be read.  The
stages at which it can stop come in a fixed order, and the first that has reason to decides the exit
code (`Surroundings.stop?`).  Whichever it is, no file has been touched and no code has been given
to the formatter, and this is true of every run that ends in an error.
-/

namespace NotebookTidy

/-! ## Where a run stops -/

/-- Why a run stops before it processes notebooks. -/
inductive Stop where
  /-- A configured name that no version has, where the configured names count. -/
  | unknownVersion
  /-- A target that is not there. -/
  | missingTarget
  /-- A target that is neither a directory nor named as a notebook. -/
  | foreignTarget
  /-- There are no notebooks. -/
  | noNotebook
  /-- The user interrupts while the formatter is asked for its version. -/
  | interruption
  /-- The formatter cannot be used. -/
  | unusableFormatter
  /-- A notebook cannot be read. -/
  | unreadableNotebook
deriving Repr, DecidableEq

namespace Stop

/-- The exit code, if the user's interruption leaves one. -/
def code : Stop → Option Nat
  | .unknownVersion => some 1
  | .missingTarget => some 3
  | .foreignTarget => some 4
  | .noNotebook => some 0
  | .interruption => none
  | .unusableFormatter => some 5
  | .unreadableNotebook => some 5

/-- The run ends in an error. -/
def isError : Stop → Bool
  | .noNotebook => false
  | .interruption => false
  | _ => true

end Stop

/-- The program can be started and says its version. -/
def Black.isUsable : Except IoFault Program → Bool
  | .error _ => false
  | .ok program => (program [] probeLaunch).result.ending = .exited 0

namespace Surroundings

/-- The configured names of versions, if they count. -/
def configuredVersions (s : Surroundings) (a : Arguments) : List Text :=
  if a.targetVersions = [] then s.configured.targetVersions.getD [] else []

/-- The name of the program to format with. -/
def programName (s : Surroundings) (a : Arguments) : Text :=
  (a.program.or s.configured.program).getD Settings.defaultProgram

/-- **The first stage at which a run has reason to stop**, if there is one. -/
def stop? (s : Surroundings) (a : Arguments) : Option Stop :=
  if ∃ name ∈ s.configuredVersions a, TargetVersion.ofName? name = none then some .unknownVersion
  else if ∃ target ∈ a.targets, s.disk.pathExists target = false then some .missingTarget
  else if ∃ target ∈ a.targets, Discovery.IsForeign s.disk target then some .foreignTarget
  else if Discovery.found s.disk a.targets = [] then some .noNotebook
  else if 0 < Black.probeInterrupts (s.program (s.programName a)) then some .interruption
  else if Black.isUsable (s.program (s.programName a)) = false then some .unusableFormatter
  else if ∃ location ∈ Discovery.found s.disk a.targets,
      (StoredNotebook.load s.disk location.path).isOk = false then some .unreadableNotebook
  else none

/-- **The error that a run ends in**, if it is not carried out because of one. -/
def abort? (s : Surroundings) (a : Arguments) : Option CommandError :=
  match s.prepare a with
  | .error error => some error
  | .ok (.ready p) =>
    match StoredNotebook.loadAll s.disk p.paths with
    | .error error => some (.run error)
    | .ok _ => none
  | .ok _ => none

end Surroundings

/-! ## The stages, one by one -/

namespace Black

theorem probe_of_not_isUsable {name : Text} {program : Except IoFault Program}
    (h : isUsable program = false) : probe name program = .error (.notFound name) := by
  cases program with
  | error fault => rfl
  | ok program =>
    rw [isUsable, decide_eq_false_iff_not] at h
    rw [probe]
    split
    · next hexited => exact absurd hexited h
    · rfl

theorem probe_of_isUsable (name : Text) {program : Except IoFault Program}
    (h : isUsable program = true) : ∃ version, probe name program = .ok version := by
  cases program with
  | error fault => cases h
  | ok program =>
    rw [probe, of_decide_eq_true h]
    exact ⟨_, rfl⟩

end Black

namespace StoredNotebook

/-- **The first file that cannot be loaded**, if there is one. -/
theorem exists_unloadable {disk : FileSystem} {paths : List Text}
    (h : ∃ path ∈ paths, (load disk path).isOk = false) :
    ∃ before path after error, paths = before ++ path :: after ∧
      (∀ other ∈ before, ∃ file, load disk other = .ok file) ∧
      load disk path = .error error := by
  obtain ⟨before, path, after, hpaths, hload, hbefore⟩ := exists_first h
  rcases herror : load disk path with error | file
  · refine ⟨before, path, after, error, hpaths, fun other hother => ?_, herror⟩
    rcases hother' : load disk other with error' | file
    · exact absurd (by rw [hother']; rfl) (hbefore other hother)
    · exact ⟨file, rfl⟩
  · rw [herror] at hload
    cases hload

/-- Files that can all be loaded are. -/
theorem loadAll_eq_ok {disk : FileSystem} {paths : List Text}
    (h : ∀ path ∈ paths, ∃ file, load disk path = .ok file) :
    ∃ files, loadAll disk paths = .ok files := by
  induction paths with
  | nil => exact ⟨[], rfl⟩
  | cons path rest ih =>
    obtain ⟨⟨file, hfile⟩, hrest⟩ := List.forall_mem_cons.mp h
    obtain ⟨files, hfiles⟩ := ih hrest
    exact ⟨file :: files, by rw [loadAll, hfile, hfiles]; rfl⟩

end StoredNotebook

namespace Surroundings
variable {s : Surroundings} {a : Arguments}

theorem resolve_eq_error
    (h : ∃ name ∈ s.configuredVersions a, TargetVersion.ofName? name = none) :
    ∃ name, Settings.resolve a s.configured = .error name := by
  rw [configuredVersions] at h
  split at h
  · next hnone =>
    obtain ⟨before, name, after, hnames, hunknown, hbefore⟩ := exists_first h
    exact ⟨name, Settings.resolve_eq_error_iff.mpr
      ⟨hnone, before, after, hnames, hunknown, hbefore⟩⟩
  · obtain ⟨name, hname, -⟩ := h
    cases hname

theorem resolve_eq_ok
    (h : ¬ ∃ name ∈ s.configuredVersions a, TargetVersion.ofName? name = none) :
    ∃ settings, Settings.resolve a s.configured = .ok settings ∧
      settings.program = s.programName a := by
  cases hsettings : Settings.resolve a s.configured with
  | error name =>
    obtain ⟨hnone, before, after, hnames, hunknown, -⟩ :=
      Settings.resolve_eq_error_iff.mp hsettings
    refine absurd ⟨name, ?_, hunknown⟩ h
    rw [configuredVersions, if_pos hnone, hnames]
    simp
  | ok settings =>
    obtain ⟨versions, -, rfl⟩ := Settings.resolve_eq_ok_iff.mp hsettings
    exact ⟨_, rfl, rfl⟩

/-- Settings that cannot be made end the run. -/
theorem prepare_of_unresolved {name : Text}
    (hsettings : Settings.resolve a s.configured = .error name) :
    s.prepare a = .error (.unknownVersion name) := by
  rw [prepare, hsettings]
  rfl

/-- Targets at fault end the run once the settings are made. -/
theorem prepare_of_undiscovered {settings : Settings} {error : RunError}
    (hsettings : Settings.resolve a s.configured = .ok settings)
    (hpaths : Discovery.discover s.disk a.targets = .error error) :
    s.prepare a = .error (.run error) := by
  rw [prepare, hsettings, hpaths]
  rfl

/-- The stages once the settings are made and the notebooks found. -/
theorem prepare_of_discovered {settings : Settings} {paths : List Text}
    (hsettings : Settings.resolve a s.configured = .ok settings)
    (hprogram : settings.program = s.programName a)
    (hpaths : Discovery.discover s.disk a.targets = .ok paths) :
    s.prepare a =
      if paths = [] then .ok .noNotebooks
      else if 0 < Black.probeInterrupts (s.program (s.programName a)) then .ok .interrupted
      else
        ((Black.probe (s.programName a) (s.program (s.programName a))).mapError .formatter).map
          fun version => .ready ⟨settings, paths,
            Black.formatter (s.programName a) (s.program (s.programName a)), version⟩ := by
  rw [← hprogram, prepare, hsettings, hpaths]
  rfl

/-- What the stages come to where a run stops, or if it does not. -/
def Shows (s : Surroundings) (a : Arguments) : Option Stop → Prop
  | some .unknownVersion => ∃ name, s.prepare a = .error (.unknownVersion name)
  | some .missingTarget => ∃ paths, s.prepare a = .error (.run (.missingTargets paths))
  | some .foreignTarget => ∃ path, s.prepare a = .error (.run (.invalidExtension path))
  | some .noNotebook => s.prepare a = .ok .noNotebooks
  | some .interruption => s.prepare a = .ok .interrupted
  | some .unusableFormatter => ∃ name, s.prepare a = .error (.formatter (.notFound name))
  | some .unreadableNotebook => ∃ p before path after error, s.prepare a = .ok (.ready p) ∧
      p.paths = (Discovery.found s.disk a.targets).map Location.path ∧
      p.paths = before ++ path :: after ∧
      (∀ other ∈ before, ∃ file, StoredNotebook.load s.disk other = .ok file) ∧
      StoredNotebook.load s.disk path = .error error
  | none => ∃ p files, s.prepare a = .ok (.ready p) ∧
      StoredNotebook.loadAll s.disk p.paths = .ok files

/-- **The stages come to what the first reason to stop says**, if the directories among the targets
can be searched. -/
theorem shows_stop? (hsearch : Discovery.Searchable s.disk a.targets) : s.Shows a (s.stop? a) := by
  rw [stop?]
  split
  · next hversion =>
    obtain ⟨name, hsettings⟩ := resolve_eq_error hversion
    exact ⟨name, prepare_of_unresolved hsettings⟩
  next hversion =>
  obtain ⟨settings, hsettings, hprogram⟩ := resolve_eq_ok hversion
  split
  · next hmissing =>
    exact ⟨_, prepare_of_undiscovered hsettings (Discovery.discover_of_missing hmissing)⟩
  next hmissing =>
  have hexists : ∀ target ∈ a.targets, s.disk.pathExists target = true := fun target htarget =>
    Bool.not_eq_false _ ▸ fun h => hmissing ⟨target, htarget, h⟩
  split
  · next hforeign =>
    obtain ⟨path, hpaths⟩ := Discovery.discover_of_foreign hexists hsearch hforeign
    exact ⟨path, prepare_of_undiscovered hsettings hpaths⟩
  next hforeign =>
  have hprepare := prepare_of_discovered hsettings hprogram
    (Discovery.discover_of_sound hexists hsearch hforeign)
  split
  · next hnone => exact hprepare.trans (if_pos (by rw [hnone, List.map_nil]))
  next hsome =>
  rw [if_neg (mt List.map_eq_nil_iff.mp hsome)] at hprepare
  split
  · next hinterrupts => exact hprepare.trans (if_pos hinterrupts)
  next hinterrupts =>
  rw [if_neg hinterrupts] at hprepare
  split
  · next husable =>
    rw [Black.probe_of_not_isUsable husable] at hprepare
    exact ⟨_, hprepare⟩
  next husable =>
  obtain ⟨version, hprobe⟩ := Black.probe_of_isUsable (s.programName a)
    (eq_true_of_ne_false husable)
  rw [hprobe] at hprepare
  split
  · next hunreadable =>
    obtain ⟨location, hlocation, hload⟩ := hunreadable
    obtain ⟨before, path, after, error, hpaths, hbefore, herror⟩ :=
      StoredNotebook.exists_unloadable ⟨_, List.mem_map_of_mem hlocation, hload⟩
    exact ⟨_, before, path, after, error, hprepare, rfl, hpaths, hbefore, herror⟩
  next hreadable =>
  have hall : ∀ path ∈ (Discovery.found s.disk a.targets).map Location.path,
      ∃ file, StoredNotebook.load s.disk path = .ok file := by
    intro path hpath
    obtain ⟨location, hlocation, rfl⟩ := List.mem_map.mp hpath
    rcases hload : StoredNotebook.load s.disk location.path with error | file
    · exact absurd ⟨location, hlocation, by rw [hload]; rfl⟩ hreadable
    · exact ⟨file, rfl⟩
  obtain ⟨files, hfiles⟩ := StoredNotebook.loadAll_eq_ok hall
  exact ⟨_, files, hprepare, hfiles⟩

/-! ## How a run ends -/

/-- **A run that ends in an error** has the code and the lines of the error, and has done
nothing. -/
theorem run_of_abort {error : CommandError} (h : s.abort? a = some error) :
    ∃ opening, s.run a =
      ⟨some error.code, [], textOf (s.allConfigLines ++ (opening ++ error.lines)),
        .start s.disk⟩ := by
  rw [abort?] at h
  rw [run]
  split at h
  · next error' hprepare =>
    cases h
    exact ⟨[], by rw [hprepare]; rfl⟩
  · next p hprepare =>
    split at h
    · next error' hload =>
      cases h
      exact ⟨_, by simp only [hprepare, hload]; rfl⟩
    · cases h
  · cases h

/-- The exit codes of runs that are carried out. -/
theorem resultCode_mem (r : BatchResult) : resultCode r ∈ [0, 1, CommandError.cancelledCode] := by
  rw [resultCode]
  split
  · decide
  · split <;> decide

/-- **A run that is carried out** ends with one of three codes. -/
theorem run_of_loaded {p : Prepared} {files : List StoredNotebook}
    (hprepare : s.prepare a = .ok (.ready p))
    (hload : StoredNotebook.loadAll s.disk p.paths = .ok files) :
    ∃ code ∈ [0, 1, CommandError.cancelledCode], (s.run a).code = some code := by
  rw [run]
  simp only [hprepare, hload]
  split
  · exact ⟨CommandError.cancelledCode, by decide, rfl⟩
  · exact ⟨_, resultCode_mem _, rfl⟩

/-- **Whether a run ends in an error, and with which code, is told by the first reason to stop.** -/
theorem of_shows {stop : Stop} (h : s.Shows a (some stop)) :
    (s.run a).code = stop.code ∧ (s.run a).world = .start s.disk ∧
      (s.abort? a).isSome = stop.isError := by
  have hends : ∀ {error : CommandError}, s.abort? a = some error →
      (s.run a).code = some error.code ∧ (s.run a).world = .start s.disk ∧
        (s.abort? a).isSome = true := by
    intro error habort
    obtain ⟨opening, hrun⟩ := run_of_abort habort
    rw [hrun, habort]
    exact ⟨rfl, rfl, rfl⟩
  cases stop with
  | unknownVersion =>
    obtain ⟨name, hprepare⟩ := h
    exact hends (by rw [abort?, hprepare])
  | missingTarget =>
    obtain ⟨paths, hprepare⟩ := h
    exact hends (by rw [abort?, hprepare])
  | foreignTarget =>
    obtain ⟨path, hprepare⟩ := h
    exact hends (by rw [abort?, hprepare])
  | noNotebook =>
    have hprepare : s.prepare a = .ok .noNotebooks := h
    rw [run, abort?, hprepare]
    exact ⟨rfl, rfl, rfl⟩
  | interruption =>
    have hprepare : s.prepare a = .ok .interrupted := h
    rw [run, abort?, hprepare]
    exact ⟨rfl, rfl, rfl⟩
  | unusableFormatter =>
    obtain ⟨name, hprepare⟩ := h
    exact hends (by rw [abort?, hprepare])
  | unreadableNotebook =>
    obtain ⟨p, before, path, after, error, hprepare, -, hpaths, hbefore, hload⟩ := h
    have hall : StoredNotebook.loadAll s.disk p.paths = .error error := by
      rw [hpaths]
      exact StoredNotebook.loadAll_eq_error hbefore hload
    obtain ⟨fault, rfl⟩ := StoredNotebook.error_of_load hload
    have habort : s.abort? a = some (.run (.notebook path fault)) := by
      rw [abort?, hprepare]
      simp only [hall]
    exact hends habort

theorem stop?_eq_noNotebook_iff :
    s.stop? a = some .noNotebook ↔
      (¬ ∃ name ∈ s.configuredVersions a, TargetVersion.ofName? name = none) ∧
      (¬ ∃ target ∈ a.targets, s.disk.pathExists target = false) ∧
      (¬ ∃ target ∈ a.targets, Discovery.IsForeign s.disk target) ∧
      Discovery.found s.disk a.targets = [] := by
  rw [stop?]
  split_ifs with hversion hmissing hforeign hnone
  · simp [hversion]
  · simp [hmissing]
  · simp [hforeign]
  · simp [hversion, hmissing, hforeign, hnone]
  all_goals simp [hnone]

/-- The end of a run without notebooks. -/
theorem run_of_noNotebooks (h : s.prepare a = .ok .noNotebooks) :
    s.run a = ⟨some 0, [],
      textOf (s.allConfigLines ++
        if Verbosity.ofSwitches a.quiet a.verbose = .quiet then []
        else ["Warning: No notebooks found".toList]), .start s.disk⟩ := by
  rw [run, h]

/-- **A run that finds no notebook does not look for its formatter**: it ends in the same way
whatever programs there are. -/
theorem run_of_stop_noNotebook (hsearch : Discovery.Searchable s.disk a.targets)
    (h : s.stop? a = some .noNotebook) (searchPath : List Text)
    (programs : List (Location × Program)) :
    { s with searchPath, programs }.run a = s.run a := by
  -- none of the reasons up to this one speaks of programs
  have hreasons := stop?_eq_noNotebook_iff.mp h
  have hother : { s with searchPath, programs }.stop? a = some .noNotebook :=
    stop?_eq_noNotebook_iff.mpr hreasons
  have hprepare : s.Shows a (s.stop? a) := shows_stop? hsearch
  have hprepare' : { s with searchPath, programs }.Shows a
      ({ s with searchPath, programs }.stop? a) := shows_stop? hsearch
  rw [h] at hprepare
  rw [hother] at hprepare'
  rw [run_of_noNotebooks hprepare, run_of_noNotebooks hprepare']
  rfl

/-- A run that does not end with one of the codes of runs that are carried out has done nothing. -/
theorem world_of_code {code : Nat} (h : (s.run a).code = some code)
    (hcode : code ∉ [0, 1, CommandError.cancelledCode]) : (s.run a).world = .start s.disk := by
  rcases hprepare : s.prepare a with error | ⟨- | - | p⟩
  · rw [run, hprepare]
  · rw [run, hprepare]
  · rw [run, hprepare]
  · rcases hload : StoredNotebook.loadAll s.disk p.paths with error | files
    · rw [run]
      simp only [hprepare, hload]
    · obtain ⟨other, hother, hrun⟩ := run_of_loaded hprepare hload
      rw [hrun] at h
      cases h
      exact absurd hother hcode

/-- **A run that aborts has touched nothing, and its exit code names the first stage that fails.**
Whenever a run ends in an error, its exit code is that of the error, no file has changed and nothing
has been given to the formatter; and so it is with every run whose code is not one of those of runs
that are carried out.  If the directories among the targets can be searched, the first reason to
stop decides whether the run ends in an error, and its code; a run without a reason to stop is
carried out.  A run that finds no notebook ends in the same way whatever programs there are, and
among notebooks that cannot be read the first in the order of names is reported. -/
theorem aborted_untouched {arguments : List Text} (hread : Arguments.read arguments = .run a) :
    (∀ error, s.abort? a = some error →
      (s.execute arguments).code = some error.code ∧
        (s.execute arguments).world = .start s.disk ∧
        ∃ opening, (s.execute arguments).complaint =
          textOf (s.allConfigLines ++ (opening ++ error.lines))) ∧
    (∀ code, (s.execute arguments).code = some code →
      code ∉ [0, 1, CommandError.cancelledCode] →
        (s.execute arguments).world = .start s.disk) ∧
    (Discovery.Searchable s.disk a.targets →
      (∀ stop, s.stop? a = some stop →
        (s.execute arguments).code = stop.code ∧
          (s.execute arguments).world = .start s.disk ∧
          (s.abort? a).isSome = stop.isError) ∧
      (s.stop? a = none → s.abort? a = none ∧
        ∃ code ∈ [0, 1, CommandError.cancelledCode], (s.execute arguments).code = some code) ∧
      (s.stop? a = some .noNotebook → ∀ searchPath programs,
        { s with searchPath, programs }.execute arguments = s.execute arguments) ∧
      (s.stop? a = some .unreadableNotebook → ∃ before path after error,
        (Discovery.found s.disk a.targets).map Location.path = before ++ path :: after ∧
          (∀ other ∈ before, ∃ file, StoredNotebook.load s.disk other = .ok file) ∧
          StoredNotebook.load s.disk path = .error (.notebook path error) ∧
          s.abort? a = some (.run (.notebook path error)))) ∧
    (Discovery.found s.disk a.targets).Pairwise (· < ·) ∧
    ((∀ target ∈ a.targets, s.disk.pathExists target = true) →
      ∀ location, location ∈ Discovery.found s.disk a.targets ↔
        ∃ target ∈ a.targets, Discovery.Leads s.disk target location) := by
  have hexecute : ∀ s : Surroundings, s.execute arguments = s.run a := fun s => by
    rw [execute, hread]
  rw [hexecute]
  refine ⟨fun error habort => ?_, fun code => world_of_code, fun hsearch => ⟨?_, ?_, ?_, ?_⟩,
    Discovery.sorted_setOf _, fun hexists location => Discovery.mem_found hexists⟩
  · obtain ⟨opening, hrun⟩ := run_of_abort habort
    rw [hrun]
    exact ⟨rfl, rfl, opening, rfl⟩
  · intro stop hstop
    exact of_shows (hstop ▸ shows_stop? hsearch)
  · intro hstop
    have hshows : s.Shows a (s.stop? a) := shows_stop? hsearch
    rw [hstop] at hshows
    obtain ⟨p, files, hprepare, hload⟩ := hshows
    refine ⟨?_, run_of_loaded hprepare hload⟩
    rw [abort?, hprepare]
    simp only [hload]
  · intro hstop searchPath programs
    rw [hexecute]
    exact run_of_stop_noNotebook hsearch hstop searchPath programs
  · intro hstop
    have hshows : s.Shows a (s.stop? a) := shows_stop? hsearch
    rw [hstop] at hshows
    obtain ⟨p, before, path, after, error, hprepare, hfound, hpaths, hbefore, hload⟩ := hshows
    obtain ⟨fault, rfl⟩ := StoredNotebook.error_of_load hload
    refine ⟨before, path, after, fault, hfound ▸ hpaths, hbefore, hload, ?_⟩
    rw [abort?, hprepare]
    simp only [hpaths, StoredNotebook.loadAll_eq_error hbefore hload]

/-- A directory with an empty file that is named as a notebook, and a program that says a
version. -/
def withEmptyFile : Surroundings :=
  ⟨⟨[(["a.ipynb".toList], .file [] 0o644), (["black".toList], .file [] 0o755)], []⟩, ['/'], [['/']],
    [(["black".toList], fun _ _ => ⟨⟨.exited 0, [], []⟩, 0⟩)]⟩

/-- The file that is there is not read as a notebook, and one that is not there is missed. -/
theorem untouched_of_emptyFile :
    (withEmptyFile.execute ["a.ipynb".toList]).code = some 5 ∧
      (withEmptyFile.execute ["a.ipynb".toList]).world = .start withEmptyFile.disk ∧
      (withEmptyFile.execute ["b.ipynb".toList]).code = some 3 := by
  have hsearch : ∀ target ∈ ["a.ipynb".toList, "b.ipynb".toList],
      Discovery.Searchable withEmptyFile.disk [target] := by
    intro target htarget other hother hdirectory
    obtain rfl := List.mem_singleton.mp hother
    have hfile : ∀ target ∈ ["a.ipynb".toList, "b.ipynb".toList],
        withEmptyFile.disk.isDirectory target = false := by decide
    rw [hfile other htarget] at hdirectory
    cases hdirectory
  obtain ⟨-, -, hempty, -⟩ := aborted_untouched (s := withEmptyFile)
    (a := { Arguments.empty with targets := ["a.ipynb".toList] })
    (show Arguments.read ["a.ipynb".toList] = _ from rfl)
  obtain ⟨-, -, habsent, -⟩ := aborted_untouched (s := withEmptyFile)
    (a := { Arguments.empty with targets := ["b.ipynb".toList] })
    (show Arguments.read ["b.ipynb".toList] = _ from rfl)
  obtain ⟨hcode, hworld, -⟩ :=
    (hempty (hsearch _ (by decide))).1 .unreadableNotebook (by decide)
  obtain ⟨hcode', -, -⟩ := (habsent (hsearch _ (by decide))).1 .missingTarget (by decide)
  exact ⟨hcode, hworld, hcode'⟩

end Surroundings
end NotebookTidy
