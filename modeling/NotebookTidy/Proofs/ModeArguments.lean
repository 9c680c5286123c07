import NotebookTidy.Formatter.Black
import NotebookTidy.Proofs.NamedVersions
import NotebookTidy.Proofs.TextPieces

/-!
# The arguments that say a mode

Black is told the mode by its arguments, and takes it from them again option by option
(`Black.mode?`).  What it takes is the mode that it was told, so no two modes have the same
arguments.

The versions among the arguments are the values of one option, given as often as there are versions
(`Black.valuesOf`).  They come from a set, so they stand there in the order of their age, each once,
however a command line or a configuration has listed them; and a command line lists those whose
names it gives, in any case and with blanks around them (`Arguments.read_versions`).
-/

namespace NotebookTidy
namespace Black

/-- The option that names a version. -/
def versionOption : Text := "--target-version".toList

/-! ## Option by option -/

theorem arguments_eq (mode : Mode) :
    arguments mode =
      "--line-length".toList :: Decimal.write mode.lineLength ::
        ((if mode.stringNormalization then [] else ["--skip-string-normalization".toList]) ++
          ((mode.targetVersions.members.flatMap fun v => [versionOption, v.name]) ++
            ((if mode.isStub then ["--pyi".toList] else []) ++ ["-q".toList, "-".toList]))) := by
  rw [arguments, modeArguments, List.append_assoc, List.append_assoc, List.append_assoc]
  rfl

section
variable (asked : Mode) {rest : List Text}

theorem modeFrom?_lineLength (n : Nat) :
    modeFrom? asked ("--line-length".toList :: Decimal.write n :: rest) =
      modeFrom? { asked with lineLength := n } rest := by
  rw [modeFrom?, if_neg (by decide), if_neg (by decide), if_neg (by decide), if_pos rfl,
    Decimal.read?_write]
  rfl

theorem modeFrom?_version (v : TargetVersion) :
    modeFrom? asked (versionOption :: v.name :: rest) =
      modeFrom? { asked with targetVersions := asked.targetVersions.insert v } rest := by
  unfold versionOption
  rw [modeFrom?, if_neg (by decide), if_neg (by decide), if_neg (by decide), if_neg (by decide),
    if_pos rfl, TargetVersion.ofName?_name]
  rfl

theorem modeFrom?_normalization (normalize : Bool) (hrest : rest ≠ []) :
    modeFrom? asked
        ((if normalize then [] else ["--skip-string-normalization".toList]) ++ rest) =
      modeFrom? { asked with stringNormalization := asked.stringNormalization && normalize }
        rest := by
  obtain ⟨value, others, rfl⟩ := List.exists_cons_of_ne_nil hrest
  cases normalize
  · simp only [Bool.false_eq_true, if_false, List.singleton_append, Bool.and_false]
    rw [modeFrom?, if_neg (by decide), if_pos rfl]
  · simp

theorem modeFrom?_stub (stub : Bool) (hrest : rest ≠ []) :
    modeFrom? asked ((if stub then ["--pyi".toList] else []) ++ rest) =
      modeFrom? { asked with isStub := asked.isStub || stub } rest := by
  obtain ⟨value, others, rfl⟩ := List.exists_cons_of_ne_nil hrest
  cases stub
  · simp
  · simp only [if_true, List.singleton_append, Bool.or_true]
    rw [modeFrom?, if_neg (by decide), if_neg (by decide), if_pos rfl]

theorem modeFrom?_end : modeFrom? asked ["-q".toList, "-".toList] = some asked := by
  rw [modeFrom?, if_pos rfl, modeFrom?, if_pos rfl]

/-- Versions that are named one after the other add up. -/
theorem modeFrom?_versions (versions : List TargetVersion) :
    modeFrom? asked ((versions.flatMap fun v => [versionOption, v.name]) ++ rest) =
      modeFrom? { asked with
        targetVersions := versions.foldl (fun s v => s.insert v) asked.targetVersions } rest := by
  induction versions generalizing asked with
  | nil => rfl
  | cons v others ih =>
    rw [List.flatMap_cons, List.append_assoc]
    exact (modeFrom?_version asked v).trans (ih _)

end

theorem mem_foldl_insert (versions : List TargetVersion) (s : VersionSet) (w : TargetVersion) :
    w ∈ (versions.foldl (fun s v => s.insert v) s).members ↔ w ∈ versions ∨ w ∈ s.members := by
  induction versions generalizing s with
  | nil => simp
  | cons v others ih =>
    rw [List.foldl_cons, ih, VersionSet.mem_insert, List.mem_cons]
    tauto

/-- A set is what its members add up to. -/
theorem foldl_insert_members (s : VersionSet) :
    s.members.foldl (fun s v => s.insert v) VersionSet.empty = s := by
  apply VersionSet.eq_of_mem_iff
  intro v
  rw [mem_foldl_insert]
  simp [VersionSet.empty]

/-- **Black takes from its arguments the mode that they were made for.** -/
theorem mode?_arguments (mode : Mode) : mode? (arguments mode) = some mode := by
  have hend : ["-q".toList, "-".toList] ≠ [] := List.cons_ne_nil _ _
  rw [mode?, arguments_eq, modeFrom?_lineLength,
    modeFrom?_normalization _ _ (List.append_ne_nil_of_right_ne_nil _
      (List.append_ne_nil_of_right_ne_nil _ hend)),
    modeFrom?_versions, modeFrom?_stub _ _ hend, modeFrom?_end]
  have hversions : mode.targetVersions.members.foldl (fun s v => s.insert v)
      Mode.standard.targetVersions = mode.targetVersions :=
    foldl_insert_members mode.targetVersions
  rw [hversions]
  rfl

/-! ## The versions among the arguments -/

/-- The values that an option has in arguments. -/
def valuesOf (option : Text) : List Text → List Text
  | argument :: value :: rest =>
    if argument = option then value :: valuesOf option rest else valuesOf option (value :: rest)
  | _ => []

theorem valuesOf_cons_of_ne {option argument : Text} (h : argument ≠ option) (rest : List Text) :
    valuesOf option (argument :: rest) = valuesOf option rest := by
  cases rest with
  | nil => rfl
  | cons value rest => rw [valuesOf, if_neg h]

theorem valuesOf_append {option : Text} {others : List Text}
    (h : ∀ argument ∈ others, argument ≠ option) (rest : List Text) :
    valuesOf option (others ++ rest) = valuesOf option rest := by
  induction others with
  | nil => rfl
  | cons argument others ih =>
    obtain ⟨hargument, hothers⟩ := List.forall_mem_cons.mp h
    rw [List.cons_append, valuesOf_cons_of_ne hargument, ih hothers]

theorem valuesOf_versions (versions : List TargetVersion) (rest : List Text) :
    valuesOf versionOption ((versions.flatMap fun v => [versionOption, v.name]) ++ rest) =
      versions.map TargetVersion.name ++ valuesOf versionOption rest := by
  induction versions with
  | nil => rfl
  | cons v others ih =>
    rw [List.flatMap_cons, List.append_assoc]
    exact (if_pos rfl).trans (congrArg (v.name :: ·) ih)

/-- A numeral is no option. -/
theorem write_ne_versionOption (n : Nat) : Decimal.write n ≠ versionOption := by
  intro h
  have hdash : '-' ∈ Decimal.write n := by
    rw [h]
    decide
  have hdigit := Decimal.isDigit_of_mem_write hdash
  revert hdigit
  decide

/-- **The arguments name the members of the set of versions**, the oldest first. -/
theorem valuesOf_arguments (mode : Mode) :
    valuesOf versionOption (arguments mode) =
      mode.targetVersions.members.map TargetVersion.name := by
  have hnormalization : ∀ argument ∈
      (if mode.stringNormalization then [] else ["--skip-string-normalization".toList]),
      argument ≠ versionOption := by
    split <;> decide
  have hstub : ∀ argument ∈ (if mode.isStub then ["--pyi".toList] else []),
      argument ≠ versionOption := by
    split <;> decide
  rw [arguments_eq, valuesOf_cons_of_ne (by decide),
    valuesOf_cons_of_ne (write_ne_versionOption _), valuesOf_append hnormalization,
    valuesOf_versions, valuesOf_append hstub]
  exact List.append_nil _

end Black

/-! ## Versions on the command line -/

namespace TargetVersion

theorem head?_name (v : TargetVersion) : v.name.head? = some 'p' := by
  cases v <;> rfl

/-- No option is the name of a version. -/
theorem ofName?_dash (t : Text) : ofName? ('-' :: t) = none := by
  have htrim : Text.trim ('-' :: t) = '-' :: Text.trimEnd t := by
    have hend : Text.trimEnd ('-' :: t) = '-' :: Text.trimEnd t :=
      Text.trimEnd_append_cons (by decide) [] t
    rw [Text.trim, hend, Text.trimStart_cons]
    rfl
  rw [ofName?, htrim]
  apply List.find?_eq_none.mpr
  intro v _ hname
  have hhead := congrArg List.head? (of_decide_eq_true hname)
  rw [head?_name, List.map_cons, List.head?_cons] at hhead
  revert hhead
  decide

end TargetVersion

namespace Arguments

/-- One version more on the command line. -/
theorem take_version {a : Arguments} {name : Text} {v : TargetVersion}
    (hname : TargetVersion.ofName? name = some v) :
    Progress.take ⟨a, some .targetVersion, false⟩ name =
      .ok ⟨{ a with targetVersions := a.targetVersions ++ [v] }, none, false⟩ := by
  have hset : a.set? name .targetVersion =
      .ok { a with targetVersions := a.targetVersions ++ [v] } := by
    rw [set?, hname]
  unfold Progress.take
  rw [if_neg Bool.false_ne_true]
  split
  · next hpending => cases hpending
  · next hpending => cases hpending
  · next hpending => cases hpending
  · next hpending _ _ _ => cases hpending
  · -- a name does not look like an option
    rw [TargetVersion.ofName?_dash] at hname
    cases hname
  · next hpending _ =>
    cases hpending
    rw [hset]
    rfl

theorem foldlM_versions {names : List Text}
    (hnames : ∀ name ∈ names, TargetVersion.ofName? name ≠ none) (a : Arguments)
    (rest : List Text) :
    ((names.flatMap fun name => ["-t".toList, name]) ++ rest).foldlM Progress.take
        ⟨a, none, false⟩ =
      rest.foldlM Progress.take
        ⟨{ a with
            targetVersions := a.targetVersions ++ names.filterMap TargetVersion.ofName? },
          none, false⟩ := by
  induction names generalizing a with
  | nil => simp
  | cons name others ih =>
    obtain ⟨hname, hothers⟩ := List.forall_mem_cons.mp hnames
    obtain ⟨v, hv⟩ := Option.ne_none_iff_exists'.mp hname
    have hoption : Progress.take ⟨a, none, false⟩ "-t".toList =
        .ok ⟨a, some .targetVersion, false⟩ := rfl
    rw [List.flatMap_cons, List.append_assoc, List.cons_append, List.cons_append,
      List.nil_append, List.foldlM_cons, hoption]
    change Progress.take ⟨a, some .targetVersion, false⟩ name >>= _ = _
    rw [take_version hv]
    change List.foldlM _ _ _ = _
    rw [ih hothers, List.filterMap_cons_some hv, List.append_assoc, List.singleton_append]

theorem take_target {a : Arguments} {target : Text} (hne : target ≠ [])
    (hdash : target.head? ≠ some '-') :
    Progress.take ⟨a, none, false⟩ target =
      .ok ⟨{ a with targets := a.targets ++ [target] }, none, false⟩ := by
  unfold Progress.take
  rw [if_neg Bool.false_ne_true]
  split
  · exact absurd rfl hdash
  · exact absurd rfl hdash
  · exact absurd rfl hdash
  · rw [addTarget?, if_neg hne]
    rfl
  · next hpending => cases hpending
  · next hpending _ => cases hpending

/-- **A command line lists the versions whose names it gives**, in the order in which it gives
them. -/
theorem read_versions {names : List Text} {target : Text}
    (hnames : ∀ name ∈ names, TargetVersion.ofName? name ≠ none) (hne : target ≠ [])
    (hdash : target.head? ≠ some '-') :
    read ((names.flatMap fun name => ["-t".toList, name]) ++ [target]) =
      .run { empty with
        targets := [target]
        targetVersions := names.filterMap TargetVersion.ofName? } := by
  rw [read, Progress.start, foldlM_versions hnames, List.foldlM_cons, take_target hne hdash]
  rfl

end Arguments

namespace Black

/-- **The arguments tell the mode.**  From what it is started with for a request Black takes exactly
the mode of the request, so requests in different modes are never started with the same arguments.
Of the versions each that a command line lists, or a configuration if the command line lists none,
is among the arguments once, the oldest first, and there are no others: in which order and how often
they were listed makes no difference.  A command line lists the versions whose names it gives. -/
theorem arguments_tell_mode :
    (∀ call : Call, mode? (launch call).arguments = some call.mode) ∧
    (∀ call call' : Call,
      (launch call).arguments = (launch call').arguments → call.mode = call'.mode) ∧
    (∀ (a : Arguments) (c : FormatSection) (settings : Settings),
      Settings.resolve a c = .ok settings →
        (∃ versions : List TargetVersion,
          valuesOf versionOption (arguments settings.plan.mode) =
            versions.map TargetVersion.name ∧
          versions.Pairwise (fun v w => v.index < w.index) ∧
          ∀ v, v ∈ versions ↔ Settings.Lists a c v) ∧
        ∀ (a' : Arguments) (c' : FormatSection) (settings' : Settings),
          Settings.resolve a' c' = .ok settings' →
            (∀ v, Settings.Lists a' c' v ↔ Settings.Lists a c v) →
              valuesOf versionOption (arguments settings'.plan.mode) =
                valuesOf versionOption (arguments settings.plan.mode)) ∧
    ∀ (names : List Text) (target : Text),
      (∀ name ∈ names, TargetVersion.ofName? name ≠ none) → target ≠ [] →
        target.head? ≠ some '-' →
          ∃ a, Arguments.read ((names.flatMap fun name => ["-t".toList, name]) ++ [target]) =
              .run a ∧
            a.targetVersions = names.filterMap TargetVersion.ofName? := by
  refine ⟨fun call => mode?_arguments call.mode, ?_, ?_, ?_⟩
  · intro call call' harguments
    have hmodes := mode?_arguments call.mode
    have hmodes' := mode?_arguments call'.mode
    have hsame : arguments call.mode = arguments call'.mode := harguments
    rw [hsame, hmodes'] at hmodes
    exact (Option.some.inj hmodes).symm
  · intro a c settings hsettings
    constructor
    · exact ⟨settings.plan.mode.targetVersions.members, valuesOf_arguments _,
        settings.plan.mode.targetVersions.ordered, Settings.mem_of_resolve hsettings⟩
    · intro a' c' settings' hsettings' hlists
      have hversions : settings'.plan.mode.targetVersions = settings.plan.mode.targetVersions := by
        apply VersionSet.eq_of_mem_iff
        intro v
        rw [Settings.mem_of_resolve hsettings', hlists, Settings.mem_of_resolve hsettings]
      rw [valuesOf_arguments, valuesOf_arguments, hversions]
  · intro names target hnames hne hdash
    exact ⟨_, Arguments.read_versions hnames hne hdash, rfl⟩

/-- Three names on a command line, of two versions. -/
theorem two_versions_of_three_names :
    ∃ a settings,
      Arguments.read ["-t".toList, " PY310".toList, "-t".toList, "py38".toList, "-t".toList,
        "Py310".toList, "nb.ipynb".toList] = .run a ∧
      Settings.resolve a .empty = .ok settings ∧
      ∃ versions : List TargetVersion,
        versions.map TargetVersion.name = ["py38".toList, "py310".toList] ∧
        ∀ v, v ∈ versions ↔ Settings.Lists a .empty v := by
  obtain ⟨-, -, hlisted, hread⟩ := arguments_tell_mode
  obtain ⟨a, hrun, hnamed⟩ := hread [" PY310".toList, "py38".toList, "Py310".toList]
    "nb.ipynb".toList (by decide) (by decide) (by decide)
  have hversions : Settings.targetVersions a .empty = .ok (.ofList [.py310, .py38, .py310]) := by
    rw [Settings.targetVersions, hnamed]
    rfl
  have hsettings := Settings.resolve_eq_ok_iff.mpr ⟨_, hversions, rfl⟩
  obtain ⟨⟨versions, hvalues, -, hmem⟩, -⟩ := hlisted _ _ _ hsettings
  refine ⟨a, _, hrun, hsettings, versions, ?_, hmem⟩
  rw [← hvalues, valuesOf_arguments]
  rfl

end Black
end NotebookTidy
