import Mathlib.Data.List.Sort
import NotebookTidy.Settings.Resolve

/-!
# Versions by their names

Versions are named in two places: on the command line, and in a configured list, whose names count
if the command line has none.  What becomes of the names is a set of versions, and a set knows
neither the order in which its members were named nor how often (`VersionSet.eq_of_mem_iff`).  The
first configured name that no version has is reported in place of a set
(`Settings.resolve_eq_error_iff`).
-/

namespace NotebookTidy

namespace TargetVersion

theorem mem_all (v : TargetVersion) : v ∈ all := by
  cases v <;> decide

/-- A version is read from its own name. -/
theorem ofName?_name (v : TargetVersion) : ofName? v.name = some v := by
  cases v <;> decide

end TargetVersion

namespace VersionSet

theorem mem_ofList {versions : List TargetVersion} {v : TargetVersion} :
    v ∈ (ofList versions).members ↔ v ∈ versions := by
  simp [ofList, TargetVersion.mem_all]

/-- **A set of versions is known by its members.** -/
theorem eq_of_mem_iff {s t : VersionSet} (h : ∀ v, v ∈ s.members ↔ v ∈ t.members) : s = t := by
  have : Std.Irrefl fun v w : TargetVersion => v.index < w.index :=
    ⟨fun v => Nat.lt_irrefl v.index⟩
  have : Std.Antisymm fun v w : TargetVersion => v.index < w.index :=
    ⟨fun v w hvw hwv => absurd (Nat.lt_trans hvw hwv) (Nat.lt_irrefl v.index)⟩
  have hmembers : s.members = t.members := List.Pairwise.eq_of_mem_iff s.ordered t.ordered h
  cases s
  cases t
  cases hmembers
  rfl

theorem mem_insert {s : VersionSet} {v w : TargetVersion} :
    w ∈ (s.insert v).members ↔ w = v ∨ w ∈ s.members := by
  rw [insert, mem_ofList, List.mem_cons]

end VersionSet

namespace Settings

theorem versionsOf_eq_ok_iff {names : List Text} {versions : List TargetVersion} :
    versionsOf names = .ok versions ↔ names.map TargetVersion.ofName? = versions.map some := by
  induction names generalizing versions with
  | nil => cases versions <;> simp [versionsOf]
  | cons name rest ih =>
    rw [versionsOf, List.map_cons]
    cases hname : TargetVersion.ofName? name with
    | none => cases versions <;> simp
    | some v =>
      cases versions with
      | nil => cases hrest : versionsOf rest <;> simp [Except.map]
      | cons w others =>
        rw [List.map_cons, List.cons.injEq, ← ih]
        cases hrest : versionsOf rest <;> simp [Except.map]

/-- **The name that is reported** is the first that no version has. -/
theorem versionsOf_eq_error_iff {names : List Text} {unknown : Text} :
    versionsOf names = .error unknown ↔
      ∃ before after, names = before ++ unknown :: after ∧
        TargetVersion.ofName? unknown = none ∧
        ∀ name ∈ before, TargetVersion.ofName? name ≠ none := by
  have hfind : versionsOf names = .error unknown ↔
      (names.find? fun name => TargetVersion.ofName? name = none) = some unknown := by
    induction names with
    | nil => simp [versionsOf]
    | cons name rest ih =>
      rw [versionsOf, List.find?_cons]
      cases hname : TargetVersion.ofName? name with
      | none => simp
      | some v =>
        have hmap : (versionsOf rest).map (v :: ·) = .error unknown ↔
            versionsOf rest = .error unknown := by
          cases versionsOf rest <;> simp [Except.map]
        simpa using hmap.trans ih
  rw [hfind, List.find?_eq_some_iff_append]
  constructor
  · rintro ⟨hunknown, before, after, hsplit, hbefore⟩
    exact ⟨before, after, hsplit, by simpa using hunknown, by simpa using hbefore⟩
  · rintro ⟨before, after, hsplit, hunknown, hbefore⟩
    exact ⟨by simpa using hunknown, before, after, hsplit, by simpa using hbefore⟩

/-- The versions of names are those that a name stands for. -/
theorem mem_of_versionsOf {names : List Text} {versions : List TargetVersion}
    (h : versionsOf names = .ok versions) (v : TargetVersion) :
    v ∈ versions ↔ ∃ name ∈ names, TargetVersion.ofName? name = some v := by
  rw [← List.mem_map, versionsOf_eq_ok_iff.mp h]
  simp

variable {a : Arguments} {c : FormatSection}

/-- **The version is listed**: on the command line, or, if it lists none, among configured
names. -/
def Lists (a : Arguments) (c : FormatSection) (v : TargetVersion) : Prop :=
  v ∈ a.targetVersions ∨
    a.targetVersions = [] ∧
      ∃ name ∈ c.targetVersions.getD [], TargetVersion.ofName? name = some v

/-- Settings are made as soon as the set of versions is. -/
theorem resolve_eq (a : Arguments) (c : FormatSection) :
    resolve a c = (targetVersions a c).map fun versions => on versions a c := by
  rw [resolve]
  cases targetVersions a c <;> rfl

theorem resolve_eq_ok_iff {settings : Settings} :
    resolve a c = .ok settings ↔
      ∃ versions, targetVersions a c = .ok versions ∧ on versions a c = settings := by
  rw [resolve_eq]
  cases targetVersions a c with
  | error unknown =>
    refine ⟨nofun, ?_⟩
    rintro ⟨versions, h, -⟩
    cases h
  | ok versions => simp [Except.map]

/-- **What keeps settings from being made**: a configured list that counts and has a name that no
version has. -/
theorem resolve_eq_error_iff {unknown : Text} :
    resolve a c = .error unknown ↔
      a.targetVersions = [] ∧
        ∃ before after, c.targetVersions.getD [] = before ++ unknown :: after ∧
          TargetVersion.ofName? unknown = none ∧
          ∀ name ∈ before, TargetVersion.ofName? name ≠ none := by
  rw [resolve_eq, targetVersions, ← versionsOf_eq_error_iff]
  by_cases hnone : a.targetVersions = []
  · rw [if_pos hnone]
    cases versionsOf (c.targetVersions.getD []) <;> simp [Except.map, hnone]
  · rw [if_neg hnone]
    simp [Except.map, hnone]

/-- **The versions that are asked for are those that are listed.** -/
theorem mem_of_targetVersions {versions : VersionSet} (h : targetVersions a c = .ok versions)
    (v : TargetVersion) : v ∈ versions.members ↔ Lists a c v := by
  rw [targetVersions] at h
  by_cases hnone : a.targetVersions = []
  · rw [if_pos hnone] at h
    cases hnames : versionsOf (c.targetVersions.getD []) with
    | error unknown =>
      rw [hnames] at h
      cases h
    | ok named =>
      rw [hnames] at h
      cases h
      rw [VersionSet.mem_ofList, mem_of_versionsOf hnames, Lists, hnone]
      simp
  · rw [if_neg hnone] at h
    cases h
    rw [VersionSet.mem_ofList, Lists]
    simp [hnone]

theorem mem_of_resolve {settings : Settings} (h : resolve a c = .ok settings)
    (v : TargetVersion) : v ∈ settings.plan.mode.targetVersions.members ↔ Lists a c v := by
  obtain ⟨versions, hversions, rfl⟩ := resolve_eq_ok_iff.mp h
  exact mem_of_targetVersions hversions v

end Settings
end NotebookTidy
