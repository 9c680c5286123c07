import NotebookTidy.Discovery

/-!
# The notebooks that are found

What a search finds depends on the set of its targets only through the places they lead to
(`Discovery.Leads`): these places, each once and in order, are what is found, if every target is
there and is a directory that can be searched or named as a notebook (`discover_of_sound`).  A
target that is not there is reported before all else, and one that is neither a directory nor named
as a notebook is reported if all targets are there.
-/

namespace NotebookTidy

/-- If some have a property, there is a first that has it. -/
theorem exists_first {α : Type} {l : List α} {p : α → Prop} (h : ∃ a ∈ l, p a) :
    ∃ before a after, l = before ++ a :: after ∧ p a ∧ ∀ b ∈ before, ¬ p b := by
  classical
  obtain ⟨a, ha⟩ := Option.isSome_iff_exists.mp
    (List.find?_isSome.mpr (by simpa using h) : (l.find? fun a => p a).isSome)
  obtain ⟨hp, before, after, hl, hbefore⟩ := List.find?_eq_some_iff_append.mp ha
  exact ⟨before, a, after, hl, by simpa using hp, by simpa using hbefore⟩

namespace Discovery

/-! ## Sets of locations -/

theorem mem_insert {location other : Location} {locations : List Location} :
    other ∈ insert location locations ↔ other = location ∨ other ∈ locations := by
  induction locations with
  | nil => rw [insert, List.mem_singleton, or_iff_left List.not_mem_nil]
  | cons first rest ih =>
    rw [insert]
    split
    · exact List.mem_cons
    · split
      · next heq =>
        subst heq
        exact ⟨Or.inr, fun h => h.elim (fun h => h ▸ List.mem_cons_self) id⟩
      · rw [List.mem_cons, ih, List.mem_cons, or_left_comm]

/-- **Putting a location in keeps the order.** -/
theorem sorted_insert (location : Location) {locations : List Location}
    (h : locations.Pairwise (· < ·)) : (insert location locations).Pairwise (· < ·) := by
  induction locations with
  | nil => exact List.pairwise_singleton _ _
  | cons first rest ih =>
    obtain ⟨hfirst, hrest⟩ := List.pairwise_cons.mp h
    rw [insert]
    split
    · next hlt =>
      refine List.pairwise_cons.mpr ⟨List.forall_mem_cons.mpr ⟨hlt, fun other hother => ?_⟩, h⟩
      exact List.lt_trans hlt (hfirst other hother)
    · split
      · exact h
      · next hnlt hne =>
        refine List.pairwise_cons.mpr ⟨fun other hother => ?_, ih hrest⟩
        rcases mem_insert.mp hother with rfl | hother
        · exact Decidable.not_not.mp fun hngt => hne (Std.Trichotomous.trichotomous _ _ hnlt hngt)
        · exact hfirst other hother

theorem mem_setOf {location : Location} {locations : List Location} :
    location ∈ setOf locations ↔ location ∈ locations := by
  induction locations with
  | nil => rfl
  | cons first rest ih => rw [setOf, List.foldr_cons, mem_insert, List.mem_cons, ← ih, setOf]

theorem sorted_setOf (locations : List Location) : (setOf locations).Pairwise (· < ·) := by
  induction locations with
  | nil => exact .nil
  | cons first rest ih => exact sorted_insert first ih

/-! ## Where targets lead -/

variable {fs : FileSystem}

/-- **The target leads to a notebook** at the location: to one below it if it is a directory, and
to itself if it is named as a notebook. -/
def Leads (fs : FileSystem) (target : Text) (location : Location) : Prop :=
  if fs.isDirectory target then ∃ locations, notebooksIn fs target = .ok locations ∧
    location ∈ locations
  else Path.isNotebook target = true ∧ fs.resolve target = .ok location

/-- The target is there, but no notebook can be meant by it. -/
def IsForeign (fs : FileSystem) (target : Text) : Prop :=
  fs.isDirectory target = false ∧ Path.isNotebook target = false

instance (fs : FileSystem) (target : Text) : Decidable (IsForeign fs target) :=
  inferInstanceAs (Decidable (_ ∧ _))

/-- The directories among the targets can be searched. -/
def Searchable (fs : FileSystem) (targets : List Text) : Prop :=
  ∀ target ∈ targets, fs.isDirectory target = true → ∃ locations,
    notebooksIn fs target = .ok locations

/-- **The places of all notebooks** that targets lead to, in order and each once. -/
def found (fs : FileSystem) (targets : List Text) : List Location :=
  setOf (targets.flatMap fun target => (expand fs target).toOption.getD [])

/-- What is there can be resolved. -/
theorem resolve_of_pathExists {path : Text} (h : fs.pathExists path = true) :
    ∃ location, fs.resolve path = .ok location := by
  rw [FileSystem.pathExists, FileSystem.follow] at h
  cases hresolve : fs.resolve path with
  | error fault =>
    rw [hresolve] at h
    cases h
  | ok location => exact ⟨location, rfl⟩

/-- What a target that is there expands to, if it is a directory that can be searched or no
directory but named as a notebook. -/
theorem expand_eq_ok {target : Text} (hexists : fs.pathExists target = true)
    (hsearch : fs.isDirectory target = true → ∃ locations, notebooksIn fs target = .ok locations)
    (hown : ¬ IsForeign fs target) : ∃ locations, expand fs target = .ok locations := by
  obtain ⟨location, hresolve⟩ := resolve_of_pathExists hexists
  rw [expand, hresolve]
  cases hdirectory : fs.isDirectory target with
  | true =>
    obtain ⟨locations, hlocations⟩ := hsearch hdirectory
    exact ⟨locations, by simp only [if_true, hlocations]⟩
  | false =>
    cases hnotebook : Path.isNotebook target with
    | true => exact ⟨[location], by simp⟩
    | false => exact absurd ⟨hdirectory, hnotebook⟩ hown

/-- A target that is there and foreign is an error. -/
theorem expand_eq_error {target : Text} (hexists : fs.pathExists target = true)
    (hforeign : IsForeign fs target) : expand fs target = .error (.invalidExtension target) := by
  obtain ⟨location, hresolve⟩ := resolve_of_pathExists hexists
  obtain ⟨hdirectory, hnotebook⟩ := hforeign
  simp only [expand, hresolve, hdirectory, hnotebook, Bool.false_eq_true, if_false]

/-- The places that a target expands to are those it leads to. -/
theorem mem_expand {target : Text} (hexists : fs.pathExists target = true) {location : Location} :
    location ∈ (expand fs target).toOption.getD [] ↔ Leads fs target location := by
  obtain ⟨own, hresolve⟩ := resolve_of_pathExists hexists
  rw [expand, hresolve, Leads]
  cases hdirectory : fs.isDirectory target with
  | true =>
    rcases hlocations : notebooksIn fs target with error | locations
    · simp [Except.toOption]
    · simp [Except.toOption]
  | false =>
    cases hnotebook : Path.isNotebook target with
    | true => simp [Except.toOption, hresolve, eq_comm]
    | false => simp [Except.toOption]

theorem mem_found {targets : List Text} (hexists : ∀ target ∈ targets, fs.pathExists target = true)
    {location : Location} :
    location ∈ found fs targets ↔ ∃ target ∈ targets, Leads fs target location := by
  rw [found, mem_setOf, List.mem_flatMap]
  exact exists_congr fun target => and_congr_right fun h => mem_expand (hexists target h)

/-! ## Finding notebooks -/

/-- All targets expanded, one after the other. -/
theorem expandAll_eq_ok {targets : List Text}
    (h : ∀ target ∈ targets, ∃ locations, expand fs target = .ok locations) :
    expandAll fs targets =
      .ok (targets.flatMap fun target => (expand fs target).toOption.getD []) := by
  induction targets with
  | nil => rfl
  | cons target rest ih =>
    obtain ⟨⟨locations, hfirst⟩, hrest⟩ := List.forall_mem_cons.mp h
    rw [expandAll, ih hrest, hfirst, List.flatMap_cons, hfirst]
    rfl

/-- The first target that cannot be expanded is reported. -/
theorem expandAll_eq_error {before rest : List Text} {target : Text} {error : RunError}
    (hbefore : ∀ target ∈ before, ∃ locations, expand fs target = .ok locations)
    (h : expand fs target = .error error) :
    expandAll fs (before ++ target :: rest) = .error error := by
  induction before with
  | nil =>
    rw [List.nil_append, expandAll, h]
    rfl
  | cons first before ih =>
    obtain ⟨⟨locations, hfirst⟩, hbefore⟩ := List.forall_mem_cons.mp hbefore
    rw [List.cons_append, expandAll, ih hbefore, hfirst]
    rfl

/-- **Targets that are not there** are reported, all of them and in their order. -/
theorem discover_of_missing {targets : List Text}
    (h : ∃ target ∈ targets, fs.pathExists target = false) :
    discover fs targets =
      .error (.missingTargets (targets.filter fun target => !fs.pathExists target)) := by
  obtain ⟨target, htarget, hmissing⟩ := h
  refine if_neg fun hnone => ?_
  have hmem : target ∈ targets.filter fun target => !fs.pathExists target :=
    List.mem_filter.mpr ⟨htarget, by rw [hmissing]; rfl⟩
  rw [hnone] at hmem
  cases hmem

/-- If all targets are there, they are expanded. -/
theorem discover_of_exists {targets : List Text}
    (h : ∀ target ∈ targets, fs.pathExists target = true) :
    discover fs targets =
      (expandAll fs targets).map fun locations => (setOf locations).map Location.path := by
  refine if_pos (List.filter_eq_nil_iff.mpr fun target htarget => ?_)
  rw [h target htarget]
  decide

section
variable {targets : List Text} (hexists : ∀ target ∈ targets, fs.pathExists target = true)
  (hsearch : Searchable fs targets)
include hexists hsearch

/-- **The first foreign target** is reported if all targets are there and the directories among them
can be searched. -/
theorem discover_of_first_foreign {before after : List Text} {target : Text}
    (htargets : targets = before ++ target :: after) (hforeign : IsForeign fs target)
    (hbefore : ∀ other ∈ before, ¬ IsForeign fs other) :
    discover fs targets = .error (.invalidExtension target) := by
  subst htargets
  have hmem : target ∈ before ++ target :: after := List.mem_append_right _ List.mem_cons_self
  rw [discover_of_exists hexists, expandAll_eq_error (fun other hother => ?_)
    (expand_eq_error (hexists target hmem) hforeign)]
  · rfl
  · have hwithin : other ∈ before ++ target :: after := List.mem_append_left _ hother
    exact expand_eq_ok (hexists other hwithin) (hsearch other hwithin) (hbefore other hother)

/-- **A foreign target** is reported if there is one. -/
theorem discover_of_foreign (h : ∃ target ∈ targets, IsForeign fs target) :
    ∃ target, discover fs targets = .error (.invalidExtension target) := by
  obtain ⟨before, target, after, htargets, hforeign, hbefore⟩ := exists_first h
  exact ⟨target, discover_of_first_foreign hexists hsearch htargets hforeign hbefore⟩

/-- **What is found** if every target is there and is a directory that can be searched or named as
a notebook. -/
theorem discover_of_sound (h : ¬ ∃ target ∈ targets, IsForeign fs target) :
    discover fs targets = .ok ((found fs targets).map Location.path) := by
  rw [discover_of_exists hexists, expandAll_eq_ok fun target htarget =>
    expand_eq_ok (hexists target htarget) (hsearch target htarget) fun hforeign =>
      h ⟨target, htarget, hforeign⟩]
  rfl

end

end Discovery
end NotebookTidy
