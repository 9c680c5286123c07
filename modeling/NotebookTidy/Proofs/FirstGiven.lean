import NotebookTidy.Proofs.AbortedRuns
import NotebookTidy.Proofs.NamedVersions

/-!
# Which setting counts

A setting can be given on the command line, in the project's configuration and in the user's, and
what nobody gives has a default.  These places stand in a row, and the first in it that gives a value
counts (`FirstGiven`), for each key by itself.  Switches can be turned on at the command line and
not off, so for them the first configuration that sets the key counts only if the command line is
silent.

A configuration file that is not there, one that is of no use, and one without the section give
nothing at all (`Surroundings.section?`).
-/

namespace NotebookTidy

/-! ## The first value in a row -/

/-- **The first value that is given** in a row of places, each of which gives one or none. -/
inductive FirstGiven {α : Type} : List (Option α) → α → Prop where
  | here (a : α) (rest : List (Option α)) : FirstGiven (some a :: rest) a
  | later {rest : List (Option α)} {a : α} (h : FirstGiven rest a) : FirstGiven (none :: rest) a

namespace FirstGiven
variable {α : Type} {row : List (Option α)} {a b : α}

theorem iff_foldr : FirstGiven row a ↔ row.foldr Option.or none = some a := by
  constructor
  · intro h
    induction h with
    | here a rest => rfl
    | later h ih => exact ih
  · intro h
    induction row with
    | nil => cases h
    | cons first rest ih =>
      cases first with
      | none => exact .later (ih h)
      | some b =>
        cases h
        exact .here a rest

theorem unique (h : FirstGiven row a) (h' : FirstGiven row b) : a = b :=
  Option.some.inj ((iff_foldr.mp h).symm.trans (iff_foldr.mp h'))

/-- In a row with a default at its end something is given. -/
theorem iff_getD (row : List (Option α)) {default : α} :
    FirstGiven (row ++ [some default]) a ↔ (row.foldr Option.or none).getD default = a := by
  rw [iff_foldr]
  induction row with
  | nil => simp
  | cons first rest ih =>
    cases first with
    | none => exact ih
    | some b => simp

/-- A switch that is set first of all to "on". -/
theorem iff_getD_false {row : List (Option Bool)} :
    FirstGiven row true ↔ (row.foldr Option.or none).getD false = true := by
  rw [iff_foldr]
  cases row.foldr Option.or none <;> simp

end FirstGiven

/-! ## What configurations give -/

namespace Surroundings

/-- **The section of a configuration file**: none if the file is not there, is of no use, or has no
section. -/
def section? : Option (Except ConfigFault Configuration) → Option FormatSection
  | some (.ok config) => config.format
  | _ => none

/-- The configuration that counts, given what has been found of the user's and the project's. -/
def configuredBy (user project : Option (Except ConfigFault Configuration)) : FormatSection :=
  (Configuration.merge (usable? user) (usable? project)).format.getD .empty

theorem bind_usable? (found : Option (Except ConfigFault Configuration)) :
    (usable? found).bind Configuration.format = section? found := by
  rcases found with - | error | config <;> rfl

end Surroundings

namespace FormatSection

theorem merge_empty (c : FormatSection) : c.merge .empty = c := by
  simp [merge, empty]

end FormatSection

namespace Configuration

/-- Two configurations are merged as if what one of them lacks were a section without keys. -/
theorem getD_merge (user project : Option Configuration) :
    (merge user project).format.getD .empty =
      ((project.bind format).getD .empty).merge ((user.bind format).getD .empty) := by
  unfold merge
  split
  · next huser hproject => rw [huser, hproject]; rfl
  · next huser hproject => rw [huser, hproject]; rfl
  · next huser hproject =>
    rw [huser, hproject]
    exact (FormatSection.merge_empty _).symm
  · next huser hproject => rw [huser, hproject]; rfl

end Configuration

namespace Surroundings
variable {user project : Option (Except ConfigFault Configuration)}

/-- **Each key counts from the project's section before the user's.** -/
theorem configuredBy_key {α : Type} (key : FormatSection → Option α)
    (hempty : key .empty = none)
    (hmerge : ∀ c d : FormatSection, key (c.merge d) = (key c).or (key d)) :
    key (configuredBy user project) =
      ((section? project).bind key).or ((section? user).bind key) := by
  have hkey (found : Option FormatSection) : key (found.getD .empty) = found.bind key := by
    cases found with
    | none => exact hempty
    | some c => rfl
  rw [configuredBy, Configuration.getD_merge, bind_usable?, bind_usable?, hmerge, hkey, hkey]

/-- What counts of a key if the command line comes first and a default last. -/
theorem firstGiven_key_iff {α : Type} (key : FormatSection → Option α)
    (hempty : key .empty = none)
    (hmerge : ∀ c d : FormatSection, key (c.merge d) = (key c).or (key d))
    {given : Option α} {default a : α} :
    FirstGiven [given, (section? project).bind key, (section? user).bind key, some default] a ↔
      (given.or (key (configuredBy user project))).getD default = a := by
  rw [configuredBy_key key hempty hmerge]
  simpa only [List.cons_append, List.nil_append, List.foldr_cons, List.foldr_nil,
    Option.or_none] using
    FirstGiven.iff_getD [given, (section? project).bind key, (section? user).bind key]

/-- What counts of a switch's key. -/
theorem firstGiven_switch_iff (key : FormatSection → Option Bool) (hempty : key .empty = none)
    (hmerge : ∀ c d : FormatSection, key (c.merge d) = (key c).or (key d)) :
    FirstGiven [(section? project).bind key, (section? user).bind key] true ↔
      (key (configuredBy user project)).getD false = true := by
  rw [FirstGiven.iff_getD_false, configuredBy_key key hempty hmerge, List.foldr_cons,
    List.foldr_cons, List.foldr_nil, Option.or_none]

end Surroundings

/-! ## What settings come to -/

namespace Settings

/-- The names of versions that are configured: the project's list, even one without names, or else
the user's. -/
def ConfiguredNames (project user : Option FormatSection) (names : List Text) : Prop :=
  FirstGiven
    [project.bind FormatSection.targetVersions, user.bind FormatSection.targetVersions, some []]
    names

/-- **Settings as they are given** by a command line and the sections of a project and a user, as
far as there are any. -/
structure GivenBy (a : Arguments) (project user : Option FormatSection) (s : Settings) : Prop where
  action : s.plan.action = .check ↔ a.check = true
  lineLength :
    FirstGiven
      [a.lineLength, project.bind FormatSection.lineLength, user.bind FormatSection.lineLength,
        some defaultLineLength]
      s.plan.mode.lineLength
  /-- A run has one worker at least, also if none is asked for. -/
  workers : ∃ n,
    FirstGiven
        [a.workers, project.bind FormatSection.workers, user.bind FormatSection.workers, some 1]
        n ∧
      s.plan.workers = max 1 n
  program :
    FirstGiven
      [a.program, project.bind FormatSection.program, user.bind FormatSection.program,
        some defaultProgram]
      s.program
  /-- Versions on the command line hide the configured names. -/
  versions : ∀ v, v ∈ s.plan.mode.targetVersions.members ↔
    v ∈ a.targetVersions ∨
      a.targetVersions = [] ∧
        ∃ names, ConfiguredNames project user names ∧
          ∃ name ∈ names, TargetVersion.ofName? name = some v
  stringNormalization : s.plan.mode.stringNormalization = false ↔
    a.skipStringNormalization = true ∨
      FirstGiven
        [project.bind FormatSection.skipStringNormalization,
          user.bind FormatSection.skipStringNormalization]
        true
  isStub : s.plan.mode.isStub = true ↔
    a.isStub = true ∨
      FirstGiven [project.bind FormatSection.isStub, user.bind FormatSection.isStub] true
  showInvalidCode : s.showInvalidCode = true ↔
    a.showInvalidCode = true ∨
      FirstGiven
        [project.bind FormatSection.showInvalidCode, user.bind FormatSection.showInvalidCode]
        true

variable {a : Arguments} {user project : Option (Except Surroundings.ConfigFault Configuration)}

open Surroundings (section? configuredBy configuredBy_key firstGiven_key_iff firstGiven_switch_iff)

theorem configuredNames_iff {names : List Text} :
    ConfiguredNames (section? project) (section? user) names ↔
      (configuredBy user project).targetVersions.getD [] = names := by
  rw [ConfiguredNames, configuredBy_key FormatSection.targetVersions rfl fun _ _ => rfl]
  simpa only [List.cons_append, List.nil_append, List.foldr_cons, List.foldr_nil,
    Option.or_none] using
    FirstGiven.iff_getD
      [(section? project).bind FormatSection.targetVersions,
        (section? user).bind FormatSection.targetVersions]

/-- Settings that are made are those that are given. -/
theorem givenBy_of_resolve {s : Settings} (h : resolve a (configuredBy user project) = .ok s) :
    s.GivenBy a (section? project) (section? user) := by
  have hversions := mem_of_resolve h
  obtain ⟨versions, -, rfl⟩ := resolve_eq_ok_iff.mp h
  refine
    { action := ?_
      lineLength := (firstGiven_key_iff FormatSection.lineLength rfl fun _ _ => rfl).mpr rfl
      workers := ⟨_, (firstGiven_key_iff FormatSection.workers rfl fun _ _ => rfl).mpr rfl, rfl⟩
      program := (firstGiven_key_iff FormatSection.program rfl fun _ _ => rfl).mpr rfl
      versions := ?_
      stringNormalization := ?_
      isStub := ?_
      showInvalidCode := ?_ }
  · simp only [on]
    cases a.check <;> simp
  · intro v
    rw [hversions, Lists]
    simp only [configuredNames_iff, exists_eq_left']
  · rw [firstGiven_switch_iff FormatSection.skipStringNormalization rfl fun _ _ => rfl]
    simp only [on, Bool.not_eq_false', Bool.or_eq_true]
  · rw [firstGiven_switch_iff FormatSection.isStub rfl fun _ _ => rfl]
    simp only [on, Bool.or_eq_true]
  · rw [firstGiven_switch_iff FormatSection.showInvalidCode rfl fun _ _ => rfl]
    simp only [on, Bool.or_eq_true]

/-- **Settings are told by what gives them.** -/
theorem GivenBy.unique {project user : Option FormatSection} {s s' : Settings}
    (h : s.GivenBy a project user) (h' : s'.GivenBy a project user) : s = s' := by
  obtain ⟨n, hn, hworkers⟩ := h.workers
  obtain ⟨n', hn', hworkers'⟩ := h'.workers
  rw [hn.unique hn', ← hworkers'] at hworkers
  have hline := h.lineLength.unique h'.lineLength
  have hprogram := h.program.unique h'.program
  have hversions := VersionSet.eq_of_mem_iff fun v => (h.versions v).trans (h'.versions v).symm
  have haction := h.action.trans h'.action.symm
  have hstring := h.stringNormalization.trans h'.stringNormalization.symm
  have hstub := h.isStub.trans h'.isStub.symm
  have hshow := h.showInvalidCode.trans h'.showInvalidCode.symm
  obtain ⟨⟨action, workers, line, normalize, versions, stub⟩, program, shown⟩ := s
  obtain ⟨⟨action', workers', line', normalize', versions', stub'⟩, program', shown'⟩ := s'
  simp only at hworkers hline hprogram hversions haction hstring hstub hshow
  have haction' : action = action' := by
    cases action <;> cases action' <;> simp_all
  rw [Bool.coe_iff_coe] at hstub hshow
  have hstring' : normalize = normalize' := by
    cases normalize <;> cases normalize' <;> simp_all
  rw [haction', hworkers, hline, hstring', hversions, hstub, hprogram, hshow]

/-! ## Whether settings are made -/

/-- **No settings are made** if the names that are configured count and one of them is unknown. -/
theorem resolve_configuredBy_eq_error_iff {unknown : Text} :
    resolve a (configuredBy user project) = .error unknown ↔
      a.targetVersions = [] ∧
        ∃ names, ConfiguredNames (section? project) (section? user) names ∧
          ∃ before after, names = before ++ unknown :: after ∧
            TargetVersion.ofName? unknown = none ∧
            ∀ name ∈ before, TargetVersion.ofName? name ≠ none := by
  rw [resolve_eq_error_iff]
  simp only [configuredNames_iff, exists_eq_left']

/-- **Settings are made** exactly if no name that counts is unknown, and they are those that are
given. -/
theorem resolve_configuredBy_eq_ok_iff {settings : Settings} :
    resolve a (configuredBy user project) = .ok settings ↔
      (a.targetVersions = [] →
        ∀ names, ConfiguredNames (section? project) (section? user) names →
          ∀ name ∈ names, TargetVersion.ofName? name ≠ none) ∧
      settings.GivenBy a (section? project) (section? user) := by
  constructor
  · intro h
    refine ⟨?_, givenBy_of_resolve h⟩
    intro hnone names hnames name hname hname'
    have hunknown : ∃ name ∈ names, TargetVersion.ofName? name = none := ⟨name, hname, hname'⟩
    obtain ⟨before, first, after, hsplit, hfirst, hbefore⟩ := exists_first hunknown
    have herror : resolve a (configuredBy user project) = .error first :=
      resolve_configuredBy_eq_error_iff.mpr
        ⟨hnone, names, hnames, before, after, hsplit, hfirst, hbefore⟩
    rw [herror] at h
    cases h
  · rintro ⟨hknown, hgiven⟩
    cases hmade : resolve a (configuredBy user project) with
    | error unknown =>
      obtain ⟨hnone, names, hnames, before, after, rfl, hunknown, -⟩ :=
        resolve_configuredBy_eq_error_iff.mp hmade
      exact absurd hunknown (hknown hnone _ hnames unknown (by simp))
    | ok made => rw [(givenBy_of_resolve hmade).unique hgiven]

theorem GivenBy.one_le_workers {project user : Option FormatSection} {s : Settings}
    (h : s.GivenBy a project user) : 1 ≤ s.plan.workers := by
  obtain ⟨n, -, hworkers⟩ := h.workers
  rw [hworkers]
  exact Nat.le_max_left 1 n

/-- Names that are configured list the versions if the command line does not. -/
theorem GivenBy.mem_versions_iff {project user : Option FormatSection} {s : Settings}
    (h : s.GivenBy a project user) (hnone : a.targetVersions = []) {names : List Text}
    (hnames : ConfiguredNames project user names) (v : TargetVersion) :
    v ∈ s.plan.mode.targetVersions.members ↔
      ∃ name ∈ names, TargetVersion.ofName? name = some v := by
  rw [h.versions, hnone]
  constructor
  · rintro (hlisted | ⟨-, names', hnames', hname⟩)
    · cases hlisted
    · rwa [hnames'.unique hnames] at hname
  · intro hname
    exact Or.inr ⟨rfl, names, hnames, hname⟩

/-- **A project's list without names hides the user's.** -/
theorem exists_resolve_of_hidden
    (hempty : (section? project).bind FormatSection.targetVersions = some [])
    (hnone : a.targetVersions = []) :
    ∃ settings, resolve a (configuredBy user project) = .ok settings ∧
      settings.plan.mode.targetVersions.members = [] := by
  have hnames : ConfiguredNames (section? project) (section? user) [] := by
    rw [ConfiguredNames, hempty]
    exact .here _ _
  cases hmade : resolve a (configuredBy user project) with
  | error unknown =>
    obtain ⟨-, names, hnames', before, after, hsplit, -⟩ :=
      resolve_configuredBy_eq_error_iff.mp hmade
    rw [hnames'.unique hnames] at hsplit
    simp at hsplit
  | ok settings =>
    refine ⟨settings, rfl, List.eq_nil_iff_forall_not_mem.mpr ?_⟩
    intro v hv
    obtain ⟨name, hname, -⟩ :=
      ((givenBy_of_resolve hmade).mem_versions_iff hnone hnames v).mp hv
    cases hname

end Settings

/-! ## Settings of runs -/

namespace Surroundings
variable {s : Surroundings} {a : Arguments}

/-- Once the settings are made, the stages fail for other reasons only, and the settings stay. -/
theorem prepare_of_resolved {settings : Settings}
    (hsettings : Settings.resolve a s.configured = .ok settings) :
    (∀ unknown, s.prepare a ≠ .error (.unknownVersion unknown)) ∧
      ∀ p, s.prepare a = .ok (.ready p) → p.settings = settings := by
  cases hpaths : Discovery.discover s.disk a.targets with
  | error error =>
    rw [prepare_of_undiscovered hsettings hpaths]
    exact ⟨nofun, nofun⟩
  | ok paths =>
    obtain ⟨versions, -, hon⟩ := Settings.resolve_eq_ok_iff.mp hsettings
    have hprogram : settings.program = s.programName a := by
      rw [← hon]
      rfl
    rw [prepare_of_discovered hsettings hprogram hpaths]
    split_ifs
    · exact ⟨nofun, nofun⟩
    · exact ⟨nofun, nofun⟩
    cases Black.probe (s.programName a) (s.program (s.programName a)) with
    | error error => exact ⟨nofun, nofun⟩
    | ok version =>
      refine ⟨nofun, fun p hp => ?_⟩
      cases hp
      rfl

/-- A run complains of a configured version if and only if its settings cannot be made. -/
theorem prepare_eq_unknownVersion_iff {unknown : Text} :
    s.prepare a = .error (.unknownVersion unknown) ↔
      Settings.resolve a s.configured = .error unknown := by
  refine ⟨fun h => ?_, prepare_of_unresolved⟩
  cases hsettings : Settings.resolve a s.configured with
  | error name =>
    rw [prepare_of_unresolved hsettings] at h
    cases h
    rfl
  | ok settings => exact absurd h ((prepare_of_resolved hsettings).1 unknown)

/-- A run that gets to its notebooks has the settings that are made. -/
theorem resolve_of_ready {p : Prepared} (h : s.prepare a = .ok (.ready p)) :
    Settings.resolve a s.configured = .ok p.settings := by
  cases hsettings : Settings.resolve a s.configured with
  | error name =>
    rw [prepare_of_unresolved hsettings] at h
    cases h
  | ok settings => rw [(prepare_of_resolved hsettings).2 p h]

end Surroundings

namespace Settings

open Surroundings (section? configuredBy configName)

/-- **Settings have one order of precedence, key by key.**  Whatever is on the command line, and
whatever has been found of the user's and the project's configuration, the settings that are made
are those that are given, each by the first place that gives it.  None are made if and only if the
command line names no version and the list of names that counts has a name that no version has; the
first such name is reported.  There is one worker at least, a project's list without names hides
the user's, and a configuration that is of no use counts as one that is not there.  These are the
settings of runs. -/
theorem first_given_counts (a : Arguments)
    (user project : Option (Except Surroundings.ConfigFault Configuration)) :
    (∀ settings, resolve a (configuredBy user project) = .ok settings ↔
      (a.targetVersions = [] →
        ∀ names, ConfiguredNames (section? project) (section? user) names →
          ∀ name ∈ names, TargetVersion.ofName? name ≠ none) ∧
      settings.GivenBy a (section? project) (section? user)) ∧
    (∀ unknown, resolve a (configuredBy user project) = .error unknown ↔
      a.targetVersions = [] ∧
        ∃ names, ConfiguredNames (section? project) (section? user) names ∧
          ∃ before after, names = before ++ unknown :: after ∧
            TargetVersion.ofName? unknown = none ∧
            ∀ name ∈ before, TargetVersion.ofName? name ≠ none) ∧
    (∀ settings, resolve a (configuredBy user project) = .ok settings →
      1 ≤ settings.plan.workers) ∧
    ((section? project).bind FormatSection.targetVersions = some [] → a.targetVersions = [] →
      ∃ settings, resolve a (configuredBy user project) = .ok settings ∧
        settings.plan.mode.targetVersions.members = []) ∧
    (∀ fault, configuredBy user (some (.error fault)) = configuredBy user none ∧
      configuredBy (some (.error fault)) project = configuredBy none project) ∧
    ∀ s : Surroundings, s.config? s.userConfigPath = user → s.config? configName = project →
      (∀ unknown, s.prepare a = .error (.unknownVersion unknown) ↔
        resolve a (configuredBy user project) = .error unknown) ∧
      ∀ p, s.prepare a = .ok (.ready p) →
        resolve a (configuredBy user project) = .ok p.settings := by
  refine ⟨fun settings => resolve_configuredBy_eq_ok_iff,
    fun unknown => resolve_configuredBy_eq_error_iff,
    fun settings h => (givenBy_of_resolve h).one_le_workers,
    exists_resolve_of_hidden, fun fault => ⟨rfl, rfl⟩, ?_⟩
  -- what a run finds is what it is configured by
  rintro s rfl rfl
  exact ⟨fun unknown => Surroundings.prepare_eq_unknownVersion_iff,
    fun p => Surroundings.resolve_of_ready⟩

/-- What the user of `withBothFiles` sets. -/
def usersSection : FormatSection :=
  { FormatSection.empty with
    lineLength := some 120, workers := some 0, targetVersions := some ["py38".toList] }

/-- What the project of `withBothFiles` sets. -/
def projectsSection : FormatSection :=
  { FormatSection.empty with lineLength := some 79, targetVersions := some [] }

/-- A user and a project that have a configuration each. -/
def withBothFiles : Surroundings :=
  ⟨⟨[(["home".toList], .directory 0o755),
      (["home".toList, configName],
        .file (Utf8.encode
          "[format]\nline_length = 120\nworkers = 0\ntarget_versions = [\"py38\"]\n".toList)
          0o644),
      ([configName],
        .file (Utf8.encode "[format]\nline_length = 79\ntarget_versions = []\n".toList) 0o644)],
      []⟩,
    "/home".toList, [], []⟩

/-- The project's line length counts before the user's, and so does its list, which has no names;
the workers are the user's, one at least. -/
theorem settings_of_both_files :
    ∃ settings, resolve Arguments.empty (configuredBy (some (.ok ⟨some usersSection⟩))
        (some (.ok ⟨some projectsSection⟩))) = .ok settings ∧
      settings.plan.mode.targetVersions.members = [] ∧
      settings.plan.mode.lineLength = 79 ∧
      settings.plan.workers = 1 ∧
      ∀ unknown, withBothFiles.prepare Arguments.empty ≠ .error (.unknownVersion unknown) := by
  have huser : withBothFiles.config? withBothFiles.userConfigPath =
      some (.ok ⟨some usersSection⟩) := by decide +kernel
  have hproject : withBothFiles.config? configName = some (.ok ⟨some projectsSection⟩) := by
    decide +kernel
  obtain ⟨hmade, -, -, hhidden, -, hruns⟩ := first_given_counts Arguments.empty
    (some (.ok ⟨some usersSection⟩)) (some (.ok ⟨some projectsSection⟩))
  obtain ⟨settings, hsettings, hmembers⟩ := hhidden rfl rfl
  obtain ⟨hunknown, -⟩ := hruns withBothFiles huser hproject
  have hgiven := ((hmade settings).mp hsettings).2
  obtain ⟨n, hn, hworkers⟩ := hgiven.workers
  refine ⟨settings, hsettings, hmembers,
    hgiven.lineLength.unique (.later (.here 79 _)), ?_, fun unknown h => ?_⟩
  · rw [hworkers, hn.unique (.later (.later (.here 0 _)))]
    rfl
  · rw [(hunknown unknown).mp h] at hsettings
    cases hsettings

end Settings
end NotebookTidy
