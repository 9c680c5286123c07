import NotebookTidy.Proofs.BatchTraces
import NotebookTidy.Proofs.PhasesOnDisk
import NotebookTidy.Proofs.SequentialRuns
import NotebookTidy.Proofs.Utf8RoundTrip

/-!
# Files are never half written

While the files of a run are replaced, each of them holds its original content up to one moment
and the whole new content from then on.  The reason is an invariant on the disk (`Whole`), kept by
every event of every task: a task that has a temporary file is the only one that has it, it stands
at no file's location and at no directory, and until it takes the place of the file nobody has
touched that file.

What keeps the tasks apart is that a temporary file is made where nothing is, while all files and
all temporary files of the others are somewhere.
-/

namespace NotebookTidy

/-- The location that a file's path spells. -/
def StoredNotebook.place (file : StoredNotebook) : Location := Path.names file.path

namespace Batch
namespace Pool

/-- **Files that lie apart**: each is there, at the end of a straight path, and no two have the
same path. -/
structure Apart (start : FileSystem) (files : List StoredNotebook) : Prop where
  /-- The paths are straight, and files are there. -/
  straight : ∀ file ∈ files, ∃ directory name octets,
    start.Straight file.path directory name ∧ start.HasFile (directory ++ [name]) octets
  /-- No two files have the same path. -/
  distinct : (files.map StoredNotebook.path).Nodup

/-- **The invariant of the disk** while files are replaced, told from the history. -/
structure Whole (start : FileSystem) (files : List StoredNotebook) (log : List (Nat × Event))
    (fs : FileSystem) : Prop where
  /-- Directories stay. -/
  directories : start.KeepsDirectories fs
  /-- Every file is in some phase. -/
  course : ∀ (position : Nat) file, files[position]? = some file → ∃ content phase,
    Phases file.path content .untouched (own position log) phase
  /-- The disk holds what the phases say. -/
  holds : ∀ (position : Nat) file content phase octets, files[position]? = some file →
    Phases file.path content .untouched (own position log) phase →
    start.HasFile file.place octets → phase.Holds fs file.place octets content
  /-- Temporary files are at no file's place and at no directory's. -/
  temporaries : ∀ (position : Nat) file content phase temporary, files[position]? = some file →
    Phases file.path content .untouched (own position log) phase →
    phase.temporary? = some temporary →
      temporary ≠ [] ∧ (∀ bits, start.node? temporary ≠ some (.directory bits)) ∧
        ∀ other ∈ files, other.place ≠ temporary
  /-- No two tasks have the same temporary file. -/
  apart : ∀ (position position' : Nat) file file' content content' phase phase' temporary,
    position ≠ position' → files[position]? = some file → files[position']? = some file' →
    Phases file.path content .untouched (own position log) phase →
    Phases file'.path content' .untouched (own position' log) phase' →
    phase.temporary? = some temporary → phase'.temporary? ≠ some temporary

variable {start : FileSystem} {files : List StoredNotebook}

theorem Apart.place (h : Apart start files) {file : StoredNotebook} (hfile : file ∈ files) :
    ∃ directory name octets, file.place = directory ++ [name] ∧
      start.Straight file.path directory name ∧ start.HasFile file.place octets := by
  obtain ⟨directory, name, octets, hstraight, hhas⟩ := h.straight file hfile
  have hplace : file.place = directory ++ [name] := hstraight.names
  exact ⟨directory, name, octets, hplace, hstraight, hplace ▸ hhas⟩

/-- Files at different positions have different places. -/
theorem Apart.place_ne (h : Apart start files) {position position' : Nat}
    {file file' : StoredNotebook} (hne : position ≠ position')
    (hfile : files[position]? = some file) (hfile' : files[position']? = some file') :
    file.place ≠ file'.place := by
  intro heq
  obtain ⟨directory, name, -, hplace, hstraight, -⟩ := h.place (List.mem_of_getElem? hfile)
  obtain ⟨directory', name', -, hplace', hstraight', -⟩ := h.place (List.mem_of_getElem? hfile')
  have hpath : file.path = file'.path := by
    rw [hstraight.path_eq, hstraight'.path_eq, ← hplace, ← hplace', heq]
  have hlength : position < (files.map StoredNotebook.path).length := by
    rw [List.length_map]
    exact (List.getElem?_eq_some_iff.mp hfile).1
  refine hne ((List.getElem?_inj hlength h.distinct).mp ?_)
  rw [List.getElem?_map, List.getElem?_map, hfile, hfile', Option.map_some, Option.map_some, hpath]

theorem Whole.init : Whole start files [] start := by
  have huntouched {path : Text} {content : Octets} {position : Nat} {phase : Phase}
      (hphases : Phases path content .untouched (own position []) phase) :
      phase = .untouched := by
    cases hphases
    rfl
  refine ⟨fun _ _ => id, fun _ _ _ => ⟨[], .untouched, .refl _⟩, ?_, ?_, ?_⟩
  · intro position file content phase octets _ hphases hhas
    rw [huntouched hphases]
    exact hhas
  · intro position file content phase temporary _ hphases htemporary
    rw [huntouched hphases] at htemporary
    cases htemporary
  · intro position position' file file' content content' phase phase' temporary _ _ _ hphases _ ht
    rw [huntouched hphases] at ht
    cases ht

/-- Events without a change leave all phases as they are. -/
theorem phases_own_snoc {path : Text} {content : Octets} {phase phase' : Phase}
    {position moved : Nat} {e : Event} {log : List (Nat × Event)} (he : e.isChange = false) :
    Phases path content phase (own position (log ++ [(moved, e)])) phase' ↔
      Phases path content phase (own position log) phase' := by
  by_cases hmoved : moved = position
  · subst hmoved
    rw [own_snoc_self]
    constructor
    · intro h
      obtain ⟨between, hfirst, hsecond⟩ := h.cut
      cases hsecond with
      | other _ rest =>
        cases rest
        exact hfirst
      | change next rest => cases he
    · intro h
      exact h.trans (.other he (.refl _))
  · rw [own_snoc_other hmoved]

theorem Whole.other {log : List (Nat × Event)} {fs : FileSystem} (h : Whole start files log fs)
    {e : Event} (he : e.isChange = false) (moved : Nat) :
    Whole start files (log ++ [(moved, e)]) fs := by
  refine ⟨h.directories, ?_, ?_, ?_, ?_⟩
  · simpa only [phases_own_snoc he] using h.course
  · simpa only [phases_own_snoc he] using h.holds
  · simpa only [phases_own_snoc he] using h.temporaries
  · simpa only [phases_own_snoc he] using h.apart

/-- An action on files takes its task from one phase to the next. -/
theorem phases_own_change {path : Text} {content : Octets} {phase : Phase} {position : Nat}
    {action : DiskAction} {answer : Except IoFault action.Answer} {log : List (Nat × Event)}
    (h : Phases path content .untouched
      (own position (log ++ [(position, .changed action answer)])) phase) :
    ∃ before, Phases path content .untouched (own position log) before ∧
      Phase.Next path content before action answer phase := by
  rw [own_snoc_self] at h
  obtain ⟨before, hbefore, hlast⟩ := h.cut
  cases hlast with
  | other he _ => cases he
  | change next rest =>
    cases rest
    exact ⟨before, hbefore, next⟩

/-- Every file is somewhere. -/
theorem Whole.place_ne_none {log : List (Nat × Event)} {fs : FileSystem}
    (h : Whole start files log fs) (hapart : Apart start files) {file : StoredNotebook}
    (hfile : file ∈ files) : fs.node? file.place ≠ none := by
  obtain ⟨position, hposition⟩ := List.mem_iff_getElem?.mp hfile
  obtain ⟨content, phase, hphases⟩ := h.course position file hposition
  obtain ⟨-, -, octets, -, -, hhas⟩ := hapart.place hfile
  exact (h.holds position file content phase octets hposition hphases hhas).node?_ne_none

section Change
variable {log : List (Nat × Event)} {fs fs' : FileSystem} {position position' : Nat}
  {file file' : StoredNotebook} {action : DiskAction}
  {answer : Except IoFault action.Answer}
  {content content' original : Octets} {before phase phase' : Phase}

/-- A change takes its own task to the next phase and leaves the other tasks in theirs. -/
theorem own_or_other (hfile : files[position]? = some file) (hfile' : files[position']? = some file')
    (hphases : Phases file'.path content .untouched
      (own position' (log ++ [(position, .changed action answer)])) phase) :
    (position = position' ∧ file = file' ∧
        ∃ before, Phases file.path content .untouched (own position log) before ∧
          Phase.Next file.path content before action answer phase) ∨
      position ≠ position' ∧ Phases file'.path content .untouched (own position' log) phase := by
  by_cases hmoved : position = position'
  · subst hmoved
    cases hfile.symm.trans hfile'
    exact Or.inl ⟨rfl, rfl, phases_own_change hphases⟩
  · rw [own_snoc_other hmoved] at hphases
    exact Or.inr ⟨hmoved, hphases⟩

/-- **What one change does to its own file**, whatever content it is thought to be about. -/
theorem Whole.effect (h : Whole start files log fs) (hapart : Apart start files)
    (hfile : files[position]? = some file) (hdisk : fs.Answered action answer fs')
    (hhas : start.HasFile file.place original)
    (hbefore : Phases file.path content .untouched (own position log) before)
    (hnext : Phase.Next file.path content before action answer phase) :
    Phase.Effect fs fs' file.place original content before phase := by
  have hmem := List.mem_of_getElem? hfile
  obtain ⟨directory, name, -, hplace, hstraight, -⟩ := hapart.place hmem
  have hholds := h.holds position file content before original hfile hbefore hhas
  have htemporary : ∀ temporary, before.temporary? = some temporary →
      temporary ≠ [] ∧ directory ++ [name] ≠ temporary := by
    intro temporary htemporary
    obtain ⟨hne, -, hplaces⟩ :=
      h.temporaries position file content before temporary hfile hbefore htemporary
    exact ⟨hne, hplace ▸ hplaces file hmem⟩
  rw [hplace] at hholds ⊢
  exact hnext.effect hdisk (hstraight.mono h.directories) htemporary hholds

/-- Directories are not touched. -/
theorem Whole.directories_effect (h : Whole start files log fs)
    (hfile : files[position]? = some file) (hhas : start.HasFile file.place original)
    (hbefore : Phases file.path content .untouched (own position log) before)
    (heffect : Phase.Effect fs fs' file.place original content before phase) :
    start.KeepsDirectories fs' := by
  intro location bits hlocation
  have hkept := h.directories location bits hlocation
  have hplace : location ≠ file.place := by
    rintro rfl
    obtain ⟨bits', hnode, -⟩ := hhas
    rw [hnode] at hlocation
    cases hlocation
  rw [heffect.stays (by rw [hkept]; exact Option.some_ne_none _) hplace ?_, hkept]
  rintro temporary htemporary rfl
  exact (h.temporaries position file content before location hfile hbefore htemporary).2.1 bits
    hlocation

/-- The files of other tasks are not touched, nor are their temporary files. -/
theorem Whole.holds_other (h : Whole start files log fs) (hapart : Apart start files)
    (hfile : files[position]? = some file)
    (hbefore : Phases file.path content .untouched (own position log) before)
    {octets octets' : Octets} (heffect : Phase.Effect fs fs' file.place octets content before phase)
    (hne : position ≠ position') (hfile' : files[position']? = some file')
    (hphases' : Phases file'.path content' .untouched (own position' log) phase')
    (hhas' : start.HasFile file'.place octets') :
    phase'.Holds fs' file'.place octets' content' := by
  have hholds := h.holds position' file' content' phase' octets' hfile' hphases' hhas'
  refine hholds.congr (heffect.stays hholds.node?_ne_none ?_ ?_) fun temporary htemporary =>
    heffect.stays (hholds.temporary_ne_none htemporary) ?_ ?_
  · exact (hapart.place_ne hne hfile hfile').symm
  · exact fun temporary htemporary => (h.temporaries position file content before temporary hfile
      hbefore htemporary).2.2 file' (List.mem_of_getElem? hfile')
  · exact ((h.temporaries position' file' content' phase' temporary hfile' hphases'
      htemporary).2.2 file (List.mem_of_getElem? hfile)).symm
  · rintro _ htemporary' rfl
    exact h.apart position position' file file' content content' before phase' _ hne hfile hfile'
      hbefore hphases' htemporary' htemporary

/-- The temporary file after a change is at no file's place and at no directory's: a new one stands
where nothing was. -/
theorem Whole.temporary_effect (h : Whole start files log fs) (hapart : Apart start files)
    (hfile : files[position]? = some file)
    (hbefore : Phases file.path content .untouched (own position log) before)
    (heffect : Phase.Effect fs fs' file.place original content before phase) {temporary : Location}
    (htemporary : phase.temporary? = some temporary) :
    temporary ≠ [] ∧ (∀ bits, start.node? temporary ≠ some (.directory bits)) ∧
      ∀ other ∈ files, other.place ≠ temporary := by
  rcases heffect.temporary temporary htemporary with hold | ⟨hne, hnone⟩
  · exact h.temporaries position file content before temporary hfile hbefore hold
  · refine ⟨hne, fun bits hdirectory => ?_, fun other hother heq => ?_⟩
    · rw [h.directories temporary bits hdirectory] at hnone
      cases hnone
    · exact h.place_ne_none hapart hother (heq ▸ hnone)

/-- The temporary file after a change is no other task's: those are all somewhere. -/
theorem Whole.temporary_ne (h : Whole start files log fs) (hapart : Apart start files)
    (hfile : files[position]? = some file)
    (hbefore : Phases file.path content .untouched (own position log) before)
    (heffect : Phase.Effect fs fs' file.place original content before phase)
    (hne : position ≠ position') (hfile' : files[position']? = some file')
    (hphases' : Phases file'.path content' .untouched (own position' log) phase')
    {temporary : Location} (htemporary : phase.temporary? = some temporary) :
    phase'.temporary? ≠ some temporary := by
  intro htemporary'
  rcases heffect.temporary temporary htemporary with hold | ⟨-, hnone⟩
  · exact h.apart position position' file file' content content' before phase' temporary hne hfile
      hfile' hbefore hphases' hold htemporary'
  · obtain ⟨-, -, octets', -, -, hhas'⟩ := hapart.place (List.mem_of_getElem? hfile')
    have hholds := h.holds position' file' content' phase' octets' hfile' hphases' hhas'
    exact hholds.temporary_ne_none htemporary' hnone

/-- **An action on files keeps the invariant.** -/
theorem Whole.change (h : Whole start files log fs) (hapart : Apart start files)
    (hfile : files[position]? = some file) (hdisk : fs.Answered action answer fs')
    (hcourse : ∃ content phase, Phases file.path content .untouched
      (own position (log ++ [(position, .changed action answer)])) phase) :
    Whole start files (log ++ [(position, .changed action answer)]) fs' := by
  obtain ⟨content₀, phase₀, hphases₀⟩ := hcourse
  obtain ⟨before₀, hbefore₀, hnext₀⟩ := phases_own_change hphases₀
  obtain ⟨-, -, original, -, -, hhas⟩ := hapart.place (List.mem_of_getElem? hfile)
  have heffect₀ := h.effect hapart hfile hdisk hhas hbefore₀ hnext₀
  refine ⟨h.directories_effect hfile hhas hbefore₀ heffect₀, ?_, ?_, ?_, ?_⟩
  · -- every file is in some phase
    intro position' file' hfile'
    by_cases hmoved : position = position'
    · subst hmoved
      cases hfile.symm.trans hfile'
      exact ⟨content₀, phase₀, hphases₀⟩
    · rw [own_snoc_other hmoved]
      exact h.course position' file' hfile'
  · -- the disk holds what the phases say
    intro position' file' content phase octets' hfile' hphases hhas'
    rcases own_or_other hfile hfile' hphases with
      ⟨rfl, rfl, before, hbefore, hnext⟩ | ⟨hne, hphases⟩
    · exact (h.effect hapart hfile hdisk hhas' hbefore hnext).holds
    · exact h.holds_other hapart hfile hbefore₀ heffect₀ hne hfile' hphases hhas'
  · -- temporary files are at no file's place
    intro position' file' content phase temporary hfile' hphases htemporary
    rcases own_or_other hfile hfile' hphases with ⟨rfl, rfl, before, hbefore, hnext⟩ | ⟨-, hphases⟩
    · have heffect := h.effect hapart hfile hdisk hhas hbefore hnext
      exact h.temporary_effect hapart hfile hbefore heffect htemporary
    · exact h.temporaries position' file' content phase temporary hfile' hphases htemporary
  · -- no two tasks have the same temporary file: at most one of them has moved
    intro position₁ position₂ file₁ file₂ content₁ content₂ phase₁ phase₂ temporary hne hfile₁
      hfile₂ hphases₁ hphases₂ htemporary₁ htemporary₂
    rcases own_or_other hfile hfile₁ hphases₁ with
      ⟨rfl, rfl, before, hbefore, hnext⟩ | ⟨hother₁, hphases₁⟩
    · rw [own_snoc_other hne] at hphases₂
      have heffect := h.effect hapart hfile hdisk hhas hbefore hnext
      exact h.temporary_ne hapart hfile hbefore heffect hne hfile₂ hphases₂ htemporary₁ htemporary₂
    · rcases own_or_other hfile hfile₂ hphases₂ with
        ⟨rfl, rfl, before, hbefore, hnext⟩ | ⟨-, hphases₂⟩
      · have heffect := h.effect hapart hfile hdisk hhas hbefore hnext
        exact h.temporary_ne hapart hfile hbefore heffect hother₁ hfile₁ hphases₁ htemporary₂
          htemporary₁
      · exact h.apart position₁ position₂ file₁ file₂ content₁ content₂ phase₁ phase₂ temporary hne
          hfile₁ hfile₂ hphases₁ hphases₂ htemporary₁ htemporary₂

end Change

/-! ## Every history keeps files whole -/

/-- The events of a file's task, complete or not, lead to some phase. -/
theorem course_of_trace {plan : BatchPlan} {file : StoredNotebook} {es : List Event}
    {t : Task (Option Outcome)} (h : Task.Trace (task plan file) es t) :
    ∃ content phase, Phases file.path content .untouched es phase := by
  rcases phases_task h with ⟨hquiet, -⟩ | ⟨-, -, texts, -, phase, -, -, -, hphases, -⟩
  · exact ⟨[], .untouched, .of_quiet hquiet _⟩
  · exact ⟨_, phase, hphases⟩

theorem History.whole {formatter : Formatter} {plan : BatchPlan} {w : World}
    {log : List (Nat × Event)} {p : Pool} (hapart : Apart w.disk files)
    (h : History formatter plan files w log p) : Whole w.disk files log p.world.disk := by
  induction h with
  | start => exact .init
  | interrupt h begun ih => exact ih
  | @move log p h position t u e v begun at_position takes gives ih =>
    by_cases he : e.isChange = true
    · cases e with
      | changed action answer =>
        obtain ⟨file, hfile, htrace⟩ := h.moved at_position takes
        exact ih.change hapart hfile gives.answered_disk (course_of_trace htrace)
      | _ => cases he
    · have hquiet : e.isChange = false := Bool.eq_false_iff.mpr he
      change Whole w.disk files _ v.disk
      rw [gives.disk_of_not_change hquiet]
      exact ih.other hquiet position

end Pool
end Batch
end NotebookTidy
