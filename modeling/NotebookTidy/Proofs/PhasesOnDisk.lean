import NotebookTidy.Proofs.CanonicalPaths
import NotebookTidy.Proofs.Replacement

/-!
# Phases on the disk

What the disk holds in each phase of a replacement (`Phase.Holds`): up to the last change the file
has its original content, and the temporary file becomes a file with the whole new content, which
then takes its place.  `Phase.Next.effect` says so of one change, with all that it touches: the
file, its temporary file, and nothing else.
-/

namespace NotebookTidy
namespace FileSystem

/-- There is a file with this content at the location, and it can be read. -/
def HasFile (fs : FileSystem) (location : Location) (content : Octets) : Prop :=
  ∃ bits, fs.node? location = some (.file content bits) ∧ Permission.grants bits .read = true

theorem HasFile.node?_ne_none {fs : FileSystem} {location : Location} {content : Octets}
    (h : fs.HasFile location content) : fs.node? location ≠ none := by
  obtain ⟨bits, hnode, -⟩ := h
  rw [hnode]
  exact Option.some_ne_none _

theorem HasFile.congr {fs fs' : FileSystem} {location : Location} {content : Octets}
    (heq : fs'.node? location = fs.node? location) (h : fs.HasFile location content) :
    fs'.HasFile location content := by
  rw [HasFile, heq]
  exact h

/-- Reading a straight path gives the content of the file there. -/
theorem Straight.read_hasFile {fs : FileSystem} {path name : Text} {directory : Location}
    {content : Octets} (h : fs.Straight path directory name)
    (hhas : fs.HasFile (directory ++ [name]) content) : fs.read path = .ok content := by
  obtain ⟨bits, hnode, hgrants⟩ := hhas
  exact h.read hnode hgrants

/-- What the answer to an action says about the file system afterwards. -/
def Answered (fs : FileSystem) (action : DiskAction) (answer : Except IoFault action.Answer)
    (fs' : FileSystem) : Prop :=
  match answer with
  | .ok answer => fs.perform action = .ok (fs', answer)
  | .error _ => fs' = fs

end FileSystem

theorem World.Gives.answered_disk {formatter : Formatter} {w v : World} {action : DiskAction}
    {answer : Except IoFault action.Answer} (h : Gives formatter w (.changed action answer) v) :
    w.disk.Answered action answer v.disk := by
  rcases h.of_changed with ⟨done, rfl, hperform, -⟩ | ⟨fault, rfl, hdisk, -⟩
  · exact hperform
  · exact hdisk

theorem World.Gives.disk_of_not_change {formatter : Formatter} {w v : World} {e : Event}
    (h : Gives formatter w e v) (he : e.isChange = false) : v.disk = w.disk := by
  cases h with
  | changed action => cases he
  | struck action fault hmay => cases he
  | _ => rfl

/-- Events without an action on files leave the disk as it is. -/
theorem World.Follows.disk_of_quiet {formatter : Formatter} {w v : World} {es : List Event}
    (h : Follows formatter w es v) (hquiet : ∀ e ∈ es, e.isChange = false) : v.disk = w.disk := by
  induction h with
  | refl => rfl
  | gives first rest ih =>
    obtain ⟨he, hes⟩ := List.forall_mem_cons.mp hquiet
    exact (ih hes).trans (first.disk_of_not_change he)
  | interrupt rest ih => exact ih hquiet

/-! ## Phases and the disk -/

namespace Phase

/-- **What the disk holds in a phase** of the replacement of an original content. -/
def Holds (phase : Phase) (fs : FileSystem) (location : Location) (original content : Octets) :
    Prop :=
  match phase with
  | .untouched => fs.HasFile location original
  | .made temporary => fs.HasFile location original ∧ ∃ empty, fs.HasFile temporary empty
  | .written temporary => fs.HasFile location original ∧ fs.HasFile temporary content
  | .known temporary bits => fs.HasFile location original ∧ fs.HasFile temporary content ∧
    Permission.grants bits .read = true
  | .failing temporary => fs.HasFile location original ∧ fs.node? temporary ≠ none
  | .abandoned => fs.HasFile location original
  | .replaced => fs.HasFile location content

variable {fs fs' : FileSystem} {location : Location} {original content : Octets} {phase : Phase}

/-- A file is original or replaced. -/
theorem Holds.hasFile (h : phase.Holds fs location original content) :
    if phase = .replaced then fs.HasFile location content else fs.HasFile location original := by
  cases phase with
  | untouched => exact h
  | abandoned => exact h
  | replaced => exact h
  | _ => exact h.1

theorem Holds.node?_ne_none (h : phase.Holds fs location original content) :
    fs.node? location ≠ none := by
  have hfile := h.hasFile
  split at hfile
  · exact hfile.node?_ne_none
  · exact hfile.node?_ne_none

theorem Holds.temporary_ne_none (h : phase.Holds fs location original content)
    {temporary : Location} (htemporary : phase.temporary? = some temporary) :
    fs.node? temporary ≠ none := by
  cases phase with
  | made => cases htemporary; exact h.2.choose_spec.node?_ne_none
  | written => cases htemporary; exact h.2.node?_ne_none
  | known => cases htemporary; exact h.2.1.node?_ne_none
  | failing => cases htemporary; exact h.2
  | _ => cases htemporary

/-- A phase speaks of the file and of its temporary file only. -/
theorem Holds.congr (hlocation : fs'.node? location = fs.node? location)
    (htemporary : ∀ temporary, phase.temporary? = some temporary →
      fs'.node? temporary = fs.node? temporary)
    (h : phase.Holds fs location original content) :
    phase.Holds fs' location original content := by
  cases phase with
  | untouched => exact h.congr hlocation
  | made temporary =>
    obtain ⟨hfile, empty, hempty⟩ := h
    exact ⟨hfile.congr hlocation, empty, hempty.congr (htemporary _ rfl)⟩
  | written temporary => exact ⟨h.1.congr hlocation, h.2.congr (htemporary _ rfl)⟩
  | known temporary bits =>
    exact ⟨h.1.congr hlocation, h.2.1.congr (htemporary _ rfl), h.2.2⟩
  | failing temporary =>
    refine ⟨h.1.congr hlocation, ?_⟩
    rw [htemporary _ rfl]
    exact h.2
  | abandoned => exact h.congr hlocation
  | replaced => exact h.congr hlocation

/-! ## One change -/

/-- **What an action on files does**, with the phases before and after it. -/
structure Effect (fs fs' : FileSystem) (location : Location) (original content : Octets)
    (phase phase' : Phase) : Prop where
  /-- The next phase holds. -/
  holds : phase'.Holds fs' location original content
  /-- Its temporary file is the one that there was, or stands where nothing was. -/
  temporary : ∀ temporary, phase'.temporary? = some temporary →
    phase.temporary? = some temporary ∨ (temporary ≠ [] ∧ fs.node? temporary = none)
  /-- Nothing is touched but the file and its temporary file. -/
  frame : ∀ other, other ≠ location →
    (∀ temporary, phase.temporary? = some temporary ∨ phase'.temporary? = some temporary →
      other ≠ temporary) → fs'.node? other = fs.node? other

namespace Effect
variable {phase' : Phase} {temporary : Location}

/-- What is there stays, unless it is the file or its temporary file. -/
theorem stays (h : Effect fs fs' location original content phase phase') {other : Location}
    (hother : fs.node? other ≠ none) (hlocation : other ≠ location)
    (htemporary : ∀ temporary, phase.temporary? = some temporary → other ≠ temporary) :
    fs'.node? other = fs.node? other := by
  refine h.frame other hlocation ?_
  rintro temporary (hbefore | hafter)
  · exact htemporary temporary hbefore
  · rcases h.temporary temporary hafter with hbefore | ⟨-, hnone⟩
    · exact htemporary temporary hbefore
    · exact fun heq => hother (heq ▸ hnone)

/-- A change without an effect on the disk. -/
theorem still (hholds : phase'.Holds fs location original content)
    (htemporary : ∀ temporary, phase'.temporary? = some temporary →
      phase.temporary? = some temporary) :
    Effect fs fs location original content phase phase' :=
  ⟨hholds, fun temporary h => Or.inl (htemporary temporary h), fun _ _ _ => rfl⟩

/-- A failure after which the temporary file is to be removed. -/
theorem failing (hholds : phase.Holds fs location original content)
    (horiginal : fs.HasFile location original)
    (htemporary : phase.temporary? = some temporary) :
    Effect fs fs location original content phase (.failing temporary) :=
  still ⟨horiginal, hholds.temporary_ne_none htemporary⟩ fun _ h => htemporary.trans h

theorem made (hne : temporary ≠ []) (hnone : fs.node? temporary = none)
    (hfile : fs.HasFile location original) :
    Effect fs (fs.put temporary (.file [] Permission.ofTemporary)) location original content
      .untouched (.made temporary) := by
  have hapart : location ≠ temporary := fun heq => hfile.node?_ne_none (heq ▸ hnone)
  refine ⟨⟨hfile.congr ?_, [], Permission.ofTemporary, ?_, by decide⟩, ?_, ?_⟩
  · rw [FileSystem.node?_put hne, if_neg hapart]
  · rw [FileSystem.node?_put hne, if_pos rfl]
  · rintro _ ⟨⟩
    exact Or.inr ⟨hne, hnone⟩
  · intro other _ hother
    rw [FileSystem.node?_put hne, if_neg (hother temporary (Or.inr rfl))]

/-- The temporary file is written, or gets other bits, in its place. -/
theorem put (hne : temporary ≠ []) (hapart : location ≠ temporary) {bits : Nat}
    (hgrants : Permission.grants bits .read = true) (hfile : fs.HasFile location original)
    (htemporary : phase.temporary? = some temporary) :
    Effect fs (fs.put temporary (.file content bits)) location original content phase
      (.written temporary) := by
  refine ⟨⟨hfile.congr ?_, bits, ?_, hgrants⟩, fun _ h => Or.inl (htemporary.trans h), ?_⟩
  · rw [FileSystem.node?_put hne, if_neg hapart]
  · rw [FileSystem.node?_put hne, if_pos rfl]
  · intro other _ hother
    rw [FileSystem.node?_put hne, if_neg (hother temporary (Or.inl htemporary))]

theorem replaced (hne : temporary ≠ []) (hlocation : location ≠ []) {bits : Nat}
    (hgrants : Permission.grants bits .read = true) :
    Effect fs ((fs.erase temporary).put location (.file content bits)) location original content
      (.written temporary) .replaced := by
  refine ⟨⟨bits, ?_, hgrants⟩, nofun, ?_⟩
  · rw [FileSystem.node?_put hlocation, if_pos rfl]
  · intro other hother htemporary
    rw [FileSystem.node?_put hlocation, if_neg hother, FileSystem.node?_erase hne,
      if_neg (htemporary temporary (Or.inl rfl))]

theorem removed (hne : temporary ≠ []) (hapart : location ≠ temporary)
    (hfile : fs.HasFile location original) :
    Effect fs (fs.erase temporary) location original content (.failing temporary) .abandoned := by
  refine ⟨hfile.congr ?_, nofun, ?_⟩
  · rw [FileSystem.node?_erase hne, if_neg hapart]
  · intro other _ hother
    rw [FileSystem.node?_erase hne, if_neg (hother temporary (Or.inl rfl))]

end Effect

/-- **One action on files, seen from the disk**, at a file that a straight path names and whose
temporary file is at another place. -/
theorem Next.effect {path : Text} {directory : Location} {name : Text} {phase' : Phase}
    {action : DiskAction} {answer : Except IoFault action.Answer}
    (h : Next path content phase action answer phase')
    (hdisk : fs.Answered action answer fs') (hstraight : fs.Straight path directory name)
    (htemporary : ∀ temporary, phase.temporary? = some temporary →
      temporary ≠ [] ∧ directory ++ [name] ≠ temporary)
    (hholds : phase.Holds fs (directory ++ [name]) original content) :
    Effect fs fs' (directory ++ [name]) original content phase phase' := by
  cases h with
  | made temporary =>
    obtain ⟨hne, hnone, rfl⟩ := FileSystem.of_createTemporary hdisk
    exact .made hne hnone hholds
  | written temporary location' =>
    obtain ⟨hne, hapart⟩ := htemporary temporary rfl
    obtain ⟨old, bits, hnode, rfl⟩ := FileSystem.of_write hdisk
    obtain ⟨hfile, empty, bits', hnode', hgrants⟩ := hholds
    rw [hnode] at hnode'
    cases hnode'
    exact .put hne hapart hgrants hfile rfl
  | found temporary bits =>
    obtain ⟨hbits, rfl⟩ := FileSystem.of_lookUp hdisk
    obtain ⟨hfile, hwritten⟩ := hholds
    -- the bits are those of the file that the path names, which can be read
    obtain ⟨bits₀, hnode₀, hgrants₀⟩ := hfile
    rw [hstraight.bits hnode₀] at hbits
    cases hbits
    exact .still ⟨⟨bits, hnode₀, hgrants₀⟩, hwritten, hgrants₀⟩ fun _ => id
  | unfound temporary fault =>
    cases hdisk
    exact .still hholds fun _ => id
  | adopted temporary location' bits =>
    obtain ⟨hne, hapart⟩ := htemporary temporary rfl
    obtain ⟨-, rfl⟩ := FileSystem.of_setBits hdisk
    obtain ⟨hfile, ⟨old, hnode, -⟩, hgrants⟩ := hholds
    rw [FileSystem.setBits_file hnode]
    exact .put hne hapart hgrants hfile rfl
  | replaced temporary location' =>
    obtain ⟨hne, -⟩ := htemporary temporary rfl
    obtain ⟨target, node, htarget, hnode, rfl⟩ := FileSystem.of_rename hdisk
    rw [hstraight.locate] at htarget
    cases htarget
    obtain ⟨-, bits, hnode', hgrants⟩ := hholds
    rw [hnode] at hnode'
    cases hnode'
    exact .replaced hne (by simp) hgrants
  | removed temporary answer =>
    obtain ⟨hne, hapart⟩ := htemporary temporary rfl
    rcases answer with fault | location'
    · cases hdisk
      exact .still hholds.1 nofun
    · cases hdisk
      exact .removed hne hapart hholds.1
  | synced temporary location' =>
    cases hdisk
    exact .still hholds fun _ => id
  | unmade fault =>
    cases hdisk
    exact .still hholds nofun
  | unwritten temporary fault =>
    cases hdisk
    exact .failing hholds hholds.1 rfl
  | unsynced temporary fault =>
    cases hdisk
    exact .failing hholds hholds.1 rfl
  | unadopted temporary bits fault =>
    cases hdisk
    exact .failing hholds hholds.1 rfl
  | unreplaced temporary fault =>
    cases hdisk
    exact .failing hholds hholds.1 rfl

end Phase
end NotebookTidy
