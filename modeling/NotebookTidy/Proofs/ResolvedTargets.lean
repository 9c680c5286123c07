import Mathlib.Data.List.Sort
import NotebookTidy.Proofs.SearchedTrails

/-!
# The notebooks that targets stand for

A target is a spelling of a place.  The notebooks that are meant (`Meant`) depend on the places
alone, and what is found depends on nothing but the notebooks that are meant: they are given by
their canonical paths, in the order of the names from the root down and each once (`found_of_meant`).
So it makes no difference in which order targets are given, how often, how each is spelled and
through which links it leads to its place, or which characters a directory has in its name.
-/

namespace NotebookTidy
namespace FileSystem

/-- The names of a location's path are the location. -/
theorem names_path {location : Location} (h : ∀ name ∈ location, IsName name) :
    Path.names location.path = location := by
  rcases List.eq_nil_or_concat' location with rfl | ⟨directory, name, rfl⟩
  · rfl
  · exact Spells.names ⟨rfl, h⟩

variable {fs : FileSystem} {path : Text} {place : Location}

/-- **A path is there** exactly if something is where it leads. -/
theorem pathExists_iff (hresolve : fs.resolve path = .ok place) :
    fs.pathExists path = true ↔ ∃ node, fs.node? place = some node := by
  rw [pathExists, follow, hresolve]
  simp only [bind, Except.bind]
  cases fs.node? place with
  | none => simp
  | some node => simp

/-- **A path leads to a directory** exactly if there is one where it leads. -/
theorem isDirectory_iff (hresolve : fs.resolve path = .ok place) :
    fs.isDirectory path = true ↔ ∃ bits, fs.node? place = some (.directory bits) := by
  rw [isDirectory, follow, hresolve]
  simp only [bind, Except.bind]
  rcases fs.node? place with - | (⟨content, bits⟩ | bits | target) <;> simp

end FileSystem

namespace Discovery

variable {fs : FileSystem} {targets : List Text} {target : Text} {place location : Location}

/-- **The notebooks that a place stands for**: those below it if it is a directory, else itself. -/
inductive Means (fs : FileSystem) (place : Location) : Location → Prop where
  | itself (no_directory : ∀ bits, fs.node? place ≠ some (.directory bits)) : Means fs place place
  | below {location : Location} (is_directory : ∃ bits, fs.node? place = some (.directory bits))
    (notebook : HasNotebook fs place location) : Means fs place location

/-- **The notebooks that targets stand for**, by the places that the targets lead to. -/
def Meant (fs : FileSystem) (targets : List Text) (location : Location) : Prop :=
  ∃ place, (∃ target ∈ targets, fs.resolve target = .ok place) ∧ Means fs place location

/-- Every directory among the targets is explored. -/
def Explored (fs : FileSystem) (targets : List Text) : Prop :=
  ∀ target ∈ targets, fs.isDirectory target = true → ∃ start, Explores fs target start

/-- Every target is there, and is a directory or named as a notebook. -/
def Accepted (fs : FileSystem) (targets : List Text) : Prop :=
  ∀ target ∈ targets, fs.pathExists target = true ∧ ¬ IsForeign fs target

instance (fs : FileSystem) (targets : List Text) : Decidable (Accepted fs targets) :=
  inferInstanceAs (Decidable (∀ _ ∈ _, _ ∧ _))

section
variable (hnamed : fs.Named)
include hnamed

/-- Directories that are searched amply are explored. -/
theorem explored_of_ample (h : ∀ target ∈ targets, fs.isDirectory target = true →
    ∃ start ∈ opening? fs target, IsAmple fs start) : Explored fs targets := by
  intro target htarget hdirectory
  obtain ⟨start, hopens, hample⟩ := h target htarget hdirectory
  exact ⟨start, .of_ample hnamed hopens hample⟩

theorem Explored.searchable (h : Explored fs targets) : Searchable fs targets := by
  intro target htarget hdirectory
  obtain ⟨start, hstart⟩ := h target htarget hdirectory
  exact ⟨_, hstart.notebooksIn_eq hnamed⟩

/-- **Where a target leads is what its place stands for.** -/
theorem leads_iff_means (hexplored : Explored fs targets) (haccepted : Accepted fs targets)
    (htarget : target ∈ targets) (hresolve : fs.resolve target = .ok place) :
    Leads fs target location ↔ Means fs place location := by
  cases hdirectory : fs.isDirectory target with
  | true =>
    have hplace := (FileSystem.isDirectory_iff hresolve).mp hdirectory
    obtain ⟨start, hstart⟩ := hexplored target htarget hdirectory
    have hopens := (of_opening? hstart.opens).1
    rw [hresolve] at hopens
    cases hopens
    rw [Leads, if_pos hdirectory, hstart.notebooksIn_eq hnamed]
    constructor
    · rintro ⟨locations, hlocations, hmem⟩
      cases hlocations
      exact .below hplace ((hstart.mem_notebooks hnamed).mp hmem)
    · intro h
      cases h with
      | itself no_directory => exact absurd hplace.choose_spec (no_directory _)
      | below _ notebook => exact ⟨_, rfl, (hstart.mem_notebooks hnamed).mpr notebook⟩
  | false =>
    have hplace : ∀ bits, fs.node? place ≠ some (.directory bits) := by
      intro bits hnode
      rw [(FileSystem.isDirectory_iff hresolve).mpr ⟨bits, hnode⟩] at hdirectory
      cases hdirectory
    have hnotebook : Path.isNotebook target = true :=
      Bool.not_eq_false _ ▸ fun hother => (haccepted target htarget).2 ⟨hdirectory, hother⟩
    rw [Leads, if_neg (by simp [hdirectory]), hresolve]
    constructor
    · rintro ⟨-, hlocation⟩
      cases hlocation
      exact .itself hplace
    · intro h
      cases h with
      | itself => exact ⟨hnotebook, rfl⟩
      | below is_directory => exact absurd is_directory.choose_spec (hplace _)

/-- What is found is what is meant. -/
theorem mem_found_iff_meant (hexplored : Explored fs targets) (haccepted : Accepted fs targets) :
    location ∈ found fs targets ↔ Meant fs targets location := by
  rw [mem_found fun target htarget => (haccepted target htarget).1]
  constructor
  · rintro ⟨target, htarget, hleads⟩
    obtain ⟨place, hresolve⟩ := resolve_of_pathExists (haccepted target htarget).1
    exact ⟨place, ⟨target, htarget, hresolve⟩,
      (leads_iff_means hnamed hexplored haccepted htarget hresolve).mp hleads⟩
  · rintro ⟨place, ⟨target, htarget, hresolve⟩, hmeans⟩
    exact ⟨target, htarget,
      (leads_iff_means hnamed hexplored haccepted htarget hresolve).mpr hmeans⟩

/-- What is meant has names that are names. -/
theorem isName_of_meant (haccepted : Accepted fs targets) (h : Meant fs targets location) :
    ∀ name ∈ location, FileSystem.IsName name := by
  obtain ⟨place, ⟨target, htarget, hresolve⟩, hmeans⟩ := h
  cases hmeans with
  | itself =>
    obtain ⟨node, hnode⟩ := (FileSystem.pathExists_iff hresolve).mp (haccepted target htarget).1
    exact hnamed.of_node? hnode
  | below _ notebook =>
    obtain ⟨inner, name, -, -, -, content, bits, hnode⟩ := notebook
    exact hnamed.of_node? hnode

/-- **What is found is told by what is meant**: the same notebooks are found for all targets that
stand for the same. -/
theorem found_of_meant {targets' : List Text} (hexplored : Explored fs targets)
    (haccepted : Accepted fs targets) (hexplored' : Explored fs targets')
    (haccepted' : Accepted fs targets')
    (hsame : ∀ location, Meant fs targets' location ↔ Meant fs targets location) :
    found fs targets' = found fs targets := by
  apply List.Pairwise.eq_of_mem_iff (sorted_setOf _) (sorted_setOf _)
  intro location
  rw [← found, ← found, mem_found_iff_meant hnamed hexplored' haccepted', hsame,
    mem_found_iff_meant hnamed hexplored haccepted]

theorem discover_of_accepted (hexplored : Explored fs targets) (haccepted : Accepted fs targets) :
    discover fs targets = .ok ((found fs targets).map Location.path) :=
  discover_of_sound (fun target htarget => (haccepted target htarget).1)
    (hexplored.searchable hnamed) fun ⟨target, htarget, hforeign⟩ =>
      (haccepted target htarget).2 hforeign

/-- **What comes of targets.**  Those that are not there are reported first, all of them and in
their order; then the first that is neither a directory nor named as a notebook.  Otherwise the
canonical paths of the notebooks that the targets stand for are found, exactly these, in strict
order by their names; and any other targets that are accepted and stand for the same notebooks come
to the same. -/
theorem discover_meant (hexplored : Explored fs targets) :
    ((∃ target ∈ targets, fs.pathExists target = false) →
      discover fs targets =
        .error (.missingTargets (targets.filter fun target => !fs.pathExists target))) ∧
    ((∀ target ∈ targets, fs.pathExists target = true) →
      ∀ before target after, targets = before ++ target :: after → IsForeign fs target →
        (∀ other ∈ before, ¬ IsForeign fs other) →
          discover fs targets = .error (.invalidExtension target)) ∧
    (Accepted fs targets → ∃ paths, discover fs targets = .ok paths ∧
      paths.Pairwise (fun path later => Path.names path < Path.names later) ∧
      (∀ path, path ∈ paths ↔ ∃ location, Meant fs targets location ∧ path = location.path) ∧
      ∀ targets', Explored fs targets' → Accepted fs targets' →
        (∀ location, Meant fs targets' location ↔ Meant fs targets location) →
          discover fs targets' = .ok paths) := by
  refine ⟨discover_of_missing, fun hexists before target after htargets hforeign hbefore =>
    discover_of_first_foreign hexists (hexplored.searchable hnamed) htargets hforeign hbefore,
    fun haccepted => ⟨_, discover_of_accepted hnamed hexplored haccepted, ?_, ?_, ?_⟩⟩
  · refine List.pairwise_map.mpr ((sorted_setOf _).imp_of_mem fun hfirst hlater hlt => ?_)
    have hname {location : Location} (hmem : location ∈ found fs targets) :=
      FileSystem.names_path (isName_of_meant hnamed haccepted
        ((mem_found_iff_meant hnamed hexplored haccepted).mp hmem))
    rw [hname hfirst, hname hlater]
    exact hlt
  · intro path
    rw [List.mem_map]
    refine exists_congr fun location => ?_
    rw [mem_found_iff_meant hnamed hexplored haccepted, eq_comm]
  · intro targets' hexplored' haccepted' hsame
    rw [discover_of_accepted hnamed hexplored' haccepted',
      found_of_meant hnamed hexplored haccepted hexplored' haccepted' hsame]

end

/-- A shelf of notebooks: a directory whose name would match other names, in it one that is named
as a notebook, and links to what is in it. -/
def shelf : FileSystem :=
  ⟨[(["[a]*".toList], .directory Permission.ofDirectory),
    (["[a]*".toList, "b.ipynb".toList], .file [] Permission.ofFile),
    (["[a]*".toList, "in.ipynb".toList], .directory Permission.ofDirectory),
    (["[a]*".toList, "in.ipynb".toList, "c.ipynb".toList], .file [] Permission.ofFile),
    (["[a]*".toList, "notes.txt".toList], .file [] Permission.ofFile),
    (["alias".toList], .link "[a]*/in.ipynb".toList),
    (["d.ipynb".toList], .link "[a]*/b.ipynb".toList)], []⟩

/-- The notebooks on the shelf, by paths through links and up again, one of them twice. -/
def detours : List Text :=
  ["d.ipynb".toList, "./alias/..".toList, "alias".toList, "[a]*//in.ipynb/../b.ipynb".toList,
    "alias".toList]

/-- What comes of targets on the shelf: two that are not there, a file that is no notebook, and the
same two notebooks by one directory and by many paths. -/
theorem discover_meant_on_shelf :
    shelf.Named ∧
      discover shelf ["gone".toList, "alias".toList, "lost".toList] =
        .error (.missingTargets ["gone".toList, "lost".toList]) ∧
      discover shelf ["alias".toList, "[a]*/notes.txt".toList, "./[a]*/notes.txt".toList] =
        .error (.invalidExtension "[a]*/notes.txt".toList) ∧
      ∃ paths, discover shelf ["[a]*".toList] = .ok paths ∧
        paths = ["/[a]*/b.ipynb".toList, "/[a]*/in.ipynb/c.ipynb".toList] ∧
        discover shelf detours = .ok paths := by
  have hnamed : shelf.Named := by decide +kernel
  refine ⟨hnamed, (discover_meant hnamed (explored_of_ample hnamed ?_)).1 (by decide +kernel),
    (discover_meant hnamed (explored_of_ample hnamed ?_)).2.1 (by decide +kernel)
      ["alias".toList] _ _ rfl (by decide +kernel) (by decide +kernel), ?_⟩
  · decide +kernel
  · decide +kernel
  · have hexplored : Explored shelf ["[a]*".toList] := explored_of_ample hnamed (by decide +kernel)
    have hexplored' : Explored shelf detours := explored_of_ample hnamed (by decide +kernel)
    have haccepted : Accepted shelf ["[a]*".toList] := by decide +kernel
    have haccepted' : Accepted shelf detours := by decide +kernel
    have hfound : found shelf detours = found shelf ["[a]*".toList] := by decide +kernel
    obtain ⟨paths, hpaths, -, -, hsame⟩ := (discover_meant hnamed hexplored).2.2 haccepted
    refine ⟨paths, hpaths, ?_, hsame _ hexplored' haccepted' fun location => ?_⟩
    · rw [discover_of_accepted hnamed hexplored haccepted] at hpaths
      cases hpaths
      decide +kernel
    · rw [← mem_found_iff_meant hnamed hexplored haccepted,
        ← mem_found_iff_meant hnamed hexplored' haccepted', hfound]

end Discovery
end NotebookTidy
