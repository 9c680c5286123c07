import NotebookTidy.Proofs.BatchTraces
import NotebookTidy.Proofs.PhasesOnDisk
import NotebookTidy.Proofs.SequentialRuns
import NotebookTidy.Proofs.WalkFrames

/-!
# Files that lie apart

Tasks that take their turns find the disk as the one before left it.  Whatever paths lead to the
files, through links or not, a task touches what stands for its own file, and a temporary file where
nothing was (`Phase.Since`).  So paths that lead to files apart from each other do so after every
task, and the files of other tasks are read as before (`FilesApart.of_task`,
`FilesApart.of_inOrder`).
-/

namespace NotebookTidy
namespace FileSystem

variable {start fs fs' : FileSystem} {path : Text} {place temporary : Location}

theorem Keeps.refl (fs : FileSystem) : fs.Keeps fs := ⟨rfl, fun _ _ => id⟩

/-- **There is a temporary file more**, where nothing was. -/
structure Beside (start fs : FileSystem) (temporary : Location) : Prop where
  /-- The directory that a process works in is the same. -/
  here_eq : fs.here = start.here
  /-- The temporary file is not the root. -/
  ne_root : temporary ≠ []
  /-- Nothing was there. -/
  free : start.node? temporary = none
  /-- Nothing else is touched. -/
  frame : ∀ other, other ≠ temporary → fs.node? other = start.node? other

namespace Beside

theorem keeps (h : start.Beside fs temporary) : start.Keeps fs := by
  refine ⟨h.here_eq, fun location node hnode => ?_⟩
  rw [h.frame location, hnode]
  rintro rfl
  rw [h.free] at hnode
  cases hnode

/-- The temporary file gets another content or other bits. -/
theorem put (h : start.Beside fs temporary) (node : Node) :
    start.Beside (fs.put temporary node) temporary := by
  refine ⟨h.here_eq, h.ne_root, h.free, fun other hother => ?_⟩
  rw [node?_put h.ne_root, if_neg hother, h.frame other hother]

theorem erase (h : start.Beside fs temporary) : start.Keeps (fs.erase temporary) := by
  refine ⟨h.here_eq, fun location node hnode => ?_⟩
  have hother : location ≠ temporary := by
    rintro rfl
    rw [h.free] at hnode
    cases hnode
  rw [node?_erase h.ne_root, if_neg hother, h.frame location hother, hnode]

/-- **The temporary file takes the place** of what a path names. -/
theorem swapped (h : start.Beside fs temporary) (hfile : fs.IsFile temporary)
    (hresolve : start.resolve path = .ok place)
    {location : Location} (hperform : fs.perform (.rename temporary path) = .ok (fs', location)) :
    ∃ directory name, start.Names path directory name ∧
      start.Swapped fs' directory name place := by
  obtain ⟨target, node, htarget, hnode, rfl⟩ := of_rename hperform
  obtain ⟨directory, name, rfl, hnames⟩ := names_of_locate htarget
  have hnames := hnames.of_keeps h.keeps hresolve
  obtain ⟨hstands, hthere⟩ := hnames.standsFor hresolve
  have hne : directory ++ [name] ≠ [] := by simp
  refine ⟨directory, name, hnames, h.here_eq, hstands, ?_, fun other hother => ?_⟩
  · obtain ⟨content, bits, hcontent⟩ := hfile
    rw [hnode] at hcontent
    cases hcontent
    exact ⟨content, bits, by rw [node?_put hne, if_pos rfl]⟩
  · rw [node?_put hne, if_neg hother, node?_erase h.ne_root]
    split
    · next heq => rw [heq, h.free]
    · next hne => exact h.frame other hne

end Beside

end FileSystem

/-! ## Phases of a replacement -/

/-- **What has become of the disk in a phase** of the replacement of what a path names, since the
replacement began. -/
def Phase.Since (phase : Phase) (start : FileSystem) (path : Text) (place : Location)
    (fs : FileSystem) : Prop :=
  match phase with
  | .untouched => fs = start
  | .made temporary => start.Beside fs temporary
  | .written temporary => start.Beside fs temporary ∧ fs.IsFile temporary
  | .known temporary _ => start.Beside fs temporary ∧ fs.IsFile temporary
  | .failing temporary => start.Beside fs temporary
  | .abandoned => start.Keeps fs
  | .replaced => ∃ directory name, start.Names path directory name ∧
    start.Swapped fs directory name place

section
variable {start fs fs' : FileSystem} {path : Text} {place : Location} {content : Octets}
  {phase phase' : Phase} (hresolve : start.resolve path = .ok place)
include hresolve

/-- **One action on files keeps to the phases.** -/
theorem Phase.Next.since {action : DiskAction} {answer : Except IoFault action.Answer}
    (h : Next path content phase action answer phase') (hdisk : fs.Answered action answer fs')
    (hsince : phase.Since start path place fs) : phase'.Since start path place fs' := by
  cases h with
  | made temporary =>
    cases hsince
    obtain ⟨hne, hnone, rfl⟩ := FileSystem.of_createTemporary hdisk
    refine ⟨rfl, hne, hnone, fun other hother => ?_⟩
    rw [FileSystem.node?_put hne, if_neg hother]
  | unmade fault =>
    cases hsince
    cases hdisk
    exact .refl _
  | written temporary location =>
    obtain ⟨old, bits, -, rfl⟩ := FileSystem.of_write hdisk
    refine ⟨hsince.put _, content, bits, ?_⟩
    rw [FileSystem.node?_put hsince.ne_root, if_pos rfl]
  | found temporary bits =>
    obtain ⟨-, rfl⟩ := FileSystem.of_lookUp hdisk
    exact hsince
  | adopted temporary location bits =>
    obtain ⟨-, rfl⟩ := FileSystem.of_setBits hdisk
    obtain ⟨hbeside, content', old, hnode⟩ := hsince
    rw [FileSystem.setBits_file hnode]
    refine ⟨hbeside.put _, content', bits, ?_⟩
    rw [FileSystem.node?_put hbeside.ne_root, if_pos rfl]
  | replaced temporary location => exact hsince.1.swapped hsince.2 hresolve hdisk
  | removed temporary answer =>
    rcases answer with fault | location
    · cases hdisk
      exact hsince.keeps
    · cases hdisk
      exact hsince.erase
  | synced temporary location =>
    cases hdisk
    exact hsince
  | unwritten temporary fault =>
    cases hdisk
    exact hsince
  | unsynced temporary fault =>
    cases hdisk
    exact hsince.1
  | unfound temporary fault =>
    cases hdisk
    exact hsince
  | unadopted temporary bits fault =>
    cases hdisk
    exact hsince.1
  | unreplaced temporary fault =>
    cases hdisk
    exact hsince.1

/-- **A replacement keeps to its phases**, whatever happens between its changes. -/
theorem Phases.since {formatter : Formatter} {w v : World} {es : List Event}
    (h : Phases path content phase es phase') (hfollows : World.Follows formatter w es v)
    (hsince : phase.Since start path place w.disk) : phase'.Since start path place v.disk := by
  induction hfollows generalizing phase with
  | refl w =>
    cases h
    exact hsince
  | gives first rest ih =>
    cases h with
    | other hquiet rest' =>
      refine ih rest' ?_
      rw [first.disk_of_not_change hquiet]
      exact hsince
    | change next rest' => exact ih rest' (next.since hresolve first.answered_disk hsince)
  | interrupt rest ih => exact ih h hsince

end

namespace Batch

/-- **What the task of a file does to the disk**: it leaves everything that was there, or it puts a
file in place of what stands for its own. -/
theorem disk_of_task {formatter : Formatter} {plan : BatchPlan} {file : StoredNotebook}
    {w v : World} {es : List Event} {result : Option Outcome} {place : Location}
    (htrace : Task.Trace (task plan file) es (.done result))
    (hfollows : World.Follows formatter w es v) (hresolve : w.disk.resolve file.path = .ok place) :
    w.disk.Keeps v.disk ∨ ∃ directory name, w.disk.Names file.path directory name ∧
      w.disk.Swapped v.disk directory name place := by
  have hsame (h : v.disk = w.disk) : w.disk.Keeps v.disk := h ▸ .refl _
  rcases phases_task htrace with
    ⟨hquiet, -⟩ | ⟨-, _, _, _, phase, -, -, -, hphases, hresult⟩
  · exact .inl (hsame (hfollows.disk_of_quiet hquiet))
  · have hsince := hphases.since hresolve hfollows rfl
    have hnone := (hresult result rfl).2
    cases phase with
    | untouched => exact .inl (hsame hsince)
    | abandoned => exact .inl hsince
    | replaced => exact .inr hsince
    | _ => cases hnone

end Batch

/-! ## Files apart from each other -/

/-- **Paths that lead to files**, different ones to different files. -/
structure FilesApart (fs : FileSystem) (paths : List Text) : Prop where
  /-- Each leads to a file. -/
  leads : ∀ path ∈ paths, ∃ place, fs.resolve path = .ok place ∧ fs.IsFile place
  /-- No two lead to the same. -/
  apart : ∀ path ∈ paths, ∀ other ∈ paths, fs.resolve path = fs.resolve other → path = other

namespace FilesApart
variable {fs fs' : FileSystem} {paths : List Text}

theorem of_keeps (h : FilesApart fs paths) (hkeeps : fs.Keeps fs') :
    FilesApart fs' paths ∧ ∀ path ∈ paths, fs'.read path = fs.read path := by
  have hresolve {path : Text} (hpath : path ∈ paths) : fs'.resolve path = fs.resolve path := by
    obtain ⟨place, hplace, -⟩ := h.leads path hpath
    rw [hplace, FileSystem.resolve_mono hkeeps hplace]
  refine ⟨⟨fun path hpath => ?_, fun path hpath other hother heq => ?_⟩, fun path hpath => ?_⟩
  · obtain ⟨place, hplace, content, bits, hnode⟩ := h.leads path hpath
    exact ⟨place, (hresolve hpath).trans hplace, content, bits, hkeeps.2 _ _ hnode⟩
  · rw [hresolve hpath, hresolve hother] at heq
    exact h.apart path hpath other hother heq
  · obtain ⟨place, hplace, content, bits, hnode⟩ := h.leads path hpath
    exact FileSystem.read_congr hplace ((hresolve hpath).trans hplace)
      ((hkeeps.2 _ _ hnode).trans hnode.symm)

theorem of_swapped {path : Text} {directory place : Location} {name : Text}
    (h : FilesApart fs paths) (hpath : path ∈ paths) (hplace : fs.resolve path = .ok place)
    (hnames : fs.Names path directory name) (hswapped : fs.Swapped fs' directory name place) :
    FilesApart fs' paths ∧ ∀ other ∈ paths, other ≠ path → fs'.read other = fs.read other := by
  have hfile : fs.IsFile place := by
    obtain ⟨place', hplace', hfile⟩ := h.leads path hpath
    rw [hplace] at hplace'
    cases hplace'
    exact hfile
  have hself := hswapped.resolve_self hfile hnames
  have hother {other : Text} (hmem : other ∈ paths) (hne : other ≠ path) :
      ∃ location, fs.resolve other = .ok location ∧ fs'.resolve other = .ok location ∧
        location ≠ directory ++ [name] ∧ fs'.node? location = fs.node? location ∧
        fs.IsFile location := by
    obtain ⟨location, hlocation, hisFile⟩ := h.leads other hmem
    have hapart : location ≠ place := by
      rintro rfl
      exact hne (h.apart other hmem path hpath (hlocation.trans hplace.symm))
    obtain ⟨hresolve, hentry, hnode⟩ := hswapped.resolve_other hfile hlocation hisFile hapart
    exact ⟨location, hlocation, hresolve, hentry, hnode, hisFile⟩
  refine ⟨⟨fun other hmem => ?_, fun one hone two htwo heq => ?_⟩, fun other hmem hne => ?_⟩
  · by_cases hne : other = path
    · exact ⟨_, hne ▸ hself, hswapped.file⟩
    · obtain ⟨location, -, hresolve, -, hnode, content, bits, hisFile⟩ := hother hmem hne
      exact ⟨location, hresolve, content, bits, hnode.trans hisFile⟩
  · by_cases hone' : one = path
    · by_cases htwo' : two = path
      · rw [hone', htwo']
      · obtain ⟨location, -, hresolve, hentry, -⟩ := hother htwo htwo'
        rw [hone', hself, hresolve] at heq
        exact absurd (Except.ok.inj heq).symm hentry
    · obtain ⟨location, hlocation, hresolve, hentry, -⟩ := hother hone hone'
      by_cases htwo' : two = path
      · rw [htwo', hself, hresolve] at heq
        exact absurd (Except.ok.inj heq) hentry
      · obtain ⟨location', hlocation', hresolve', -⟩ := hother htwo htwo'
        rw [hresolve, hresolve'] at heq
        exact h.apart one hone two htwo (by rw [hlocation, hlocation', heq])
  · obtain ⟨location, hlocation, hresolve, -, hnode, -⟩ := hother hmem hne
    exact FileSystem.read_congr hlocation hresolve hnode

variable {formatter : Formatter} {plan : BatchPlan}

/-- **A task leaves the files of others as they were**, and all files apart. -/
theorem of_task {file : StoredNotebook} {w v : World} {es : List Event} {result : Option Outcome}
    (h : FilesApart w.disk paths) (hfile : file.path ∈ paths)
    (htrace : Task.Trace (Batch.task plan file) es (.done result))
    (hfollows : World.Follows formatter w es v) :
    FilesApart v.disk paths ∧
      ∀ other ∈ paths, other ≠ file.path → v.disk.read other = w.disk.read other := by
  obtain ⟨place, hplace, -⟩ := h.leads file.path hfile
  rcases Batch.disk_of_task htrace hfollows hplace with
    hkeeps | ⟨directory, name, hnames, hswapped⟩
  · obtain ⟨hapart, hreads⟩ := h.of_keeps hkeeps
    exact ⟨hapart, fun other hmem _ => hreads other hmem⟩
  · exact h.of_swapped hfile hplace hnames hswapped

/-- **Tasks one after the other** leave the files of others as they were. -/
theorem of_inOrder (formatter : Formatter) (plan : BatchPlan) {files : List StoredNotebook}
    {w : World} (h : FilesApart w.disk paths) (hfiles : ∀ file ∈ files, file.path ∈ paths) :
    FilesApart ((Batch.inOrder plan files).run formatter w).2.disk paths ∧
      ∀ other ∈ paths, other ∉ files.map StoredNotebook.path →
        ((Batch.inOrder plan files).run formatter w).2.disk.read other = w.disk.read other := by
  induction files generalizing w with
  | nil => exact ⟨h, fun _ _ _ => rfl⟩
  | cons file rest ih =>
    obtain ⟨hfile, hrest⟩ := List.forall_mem_cons.mp hfiles
    obtain ⟨es, htrace, hfollows⟩ := (Task.steps_run formatter (Batch.task plan file) w).trace
    obtain ⟨hapart, hreads⟩ := h.of_task hfile htrace hfollows
    obtain ⟨hapart', hreads'⟩ := ih hapart hrest
    rw [Batch.run_inOrder_cons]
    refine ⟨hapart', fun other hmem hnot => ?_⟩
    obtain ⟨hne, hnot⟩ := not_or.mp (List.mem_cons.not.mp hnot)
    exact (hreads' other hmem hnot).trans (hreads other hmem hne)

end FilesApart

/-- A path that is read leads to a file. -/
theorem FileSystem.resolve_of_read {fs : FileSystem} {path : Text} {octets : Octets}
    (h : fs.read path = .ok octets) : ∃ place, fs.resolve path = .ok place ∧ fs.IsFile place := by
  obtain ⟨node, hfollow, hnode⟩ := ok_of_bind h
  obtain ⟨place, hplace, hfound⟩ := ok_of_bind hfollow
  refine ⟨place, hplace, ?_⟩
  rcases hthere : fs.node? place with - | found
  · simp [hthere] at hfound
  · simp only [hthere, Except.ok.injEq] at hfound
    subst hfound
    cases found with
    | file content bits => exact ⟨content, bits, hthere⟩
    | directory bits => cases hnode
    | link target => cases hnode

/-- **Files that were loaded**, by paths that lead to different places. -/
theorem FilesApart.of_loadAll {disk : FileSystem} {paths : List Text} {files : List StoredNotebook}
    (hload : StoredNotebook.loadAll disk paths = .ok files)
    (hdistinct : (paths.map disk.resolve).Nodup) : FilesApart disk paths := by
  obtain ⟨hpaths, hloads⟩ := Batch.of_loadAll hload
  refine ⟨fun path hpath => ?_, fun path hpath other hother heq => ?_⟩
  · rw [← hpaths] at hpath
    obtain ⟨file, hfile, rfl⟩ := List.mem_map.mp hpath
    obtain ⟨-, octets, -, hread, -, -⟩ := Batch.of_load (hloads file hfile)
    exact FileSystem.resolve_of_read hread
  · exact List.inj_on_of_nodup_map hdistinct hpath hother heq

end NotebookTidy
