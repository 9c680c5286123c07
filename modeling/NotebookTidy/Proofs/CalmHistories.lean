import NotebookTidy.Proofs.ForcedResults
import NotebookTidy.Proofs.TemporaryFiles
import NotebookTidy.Proofs.WholeFiles

/-!
# Histories that nothing disturbs

If nobody cancels a run, and no action on files fails for a reason that no file system shows, then
every answer in its history could have been foreseen at the start (`History.foreseen`).  For the
formatter and for cancellation this is plain.  For changes of files it rests on the files being kept
whole: a temporary file can be made now if it could be made at the start, for the directory is still
the same; and nobody but its own task touches it then, so all that its task does with it succeeds.
Nothing hangs on what a look-up finds.

What is at the place of no file is left as it was (`Kept`), since all temporary files are gone in
the end.
-/

namespace NotebookTidy

/-! ## Changes that cannot fail -/

/-- **Nothing has disturbed the world**: nobody has cancelled, and no action on files has failed for
a reason that no file system shows. -/
structure World.CalmSince (w after : World) : Prop where
  /-- Nobody has cancelled. -/
  cancelled : after.cancelled = false
  /-- Actions on files have failed only where the file system was the reason. -/
  mishaps : after.mishaps = w.mishaps

namespace World
variable {formatter : Formatter}

theorem Gives.mishaps_le {w v : World} {e : Event} (h : Gives formatter w e v) :
    w.mishaps ≤ v.mishaps := by
  cases h with
  | changed action => exact Nat.le_of_eq (congrArg World.mishaps (perform_snd w action)).symm
  | struck action fault h => exact Nat.le_succ _
  | _ => exact Nat.le_refl _

theorem Follows.mishaps_le {w v : World} {es : List Event} (h : Follows formatter w es v) :
    w.mishaps ≤ v.mishaps := by
  induction h with
  | refl => exact Nat.le_refl _
  | gives first rest ih => exact Nat.le_trans first.mishaps_le ih
  | interrupt rest ih => exact ih

/-- A world from which a calm one comes is calm. -/
theorem CalmSince.before {start w v : World} {e : Event} (hcalm : CalmSince start v)
    (hstart : start.mishaps ≤ w.mishaps) (h : Gives formatter w e v) : CalmSince start w := by
  have hinterrupts := h.interrupts_le
  have hmishaps := h.mishaps_le
  obtain ⟨hcancelled, heq⟩ := hcalm
  refine ⟨?_, by omega⟩
  simp only [World.cancelled, decide_eq_false_iff_not] at hcancelled ⊢
  omega

/-- The answer to an action on files, if nothing disturbs it. -/
theorem Gives.answer_eq {w v : World} {action : DiskAction} {done : Except IoFault action.Answer}
    (h : Gives formatter w (.changed action done) v) (hmishaps : v.mishaps = w.mishaps) :
    done = (w.disk.perform action).map Prod.snd := by
  rcases h.of_changed with ⟨answer, rfl, hperform, -⟩ | ⟨fault, rfl, -, ⟨hperform, -⟩ | ⟨-, hmore⟩⟩
  · rw [hperform]
    rfl
  · rw [hperform]
    rfl
  · omega

end World

namespace FileSystem
variable {fs : FileSystem} {temporary : Location}

/-- A temporary file that is there can be written. -/
theorem HasFile.write_eq_ok {octets : Octets} (h : fs.HasFile temporary octets)
    (content : Octets) : ∃ done, fs.perform (.write temporary content) = .ok done := by
  obtain ⟨bits, hnode, -⟩ := h
  exact ⟨_, by rw [perform, hnode]⟩

/-- A temporary file that is there can get other bits. -/
theorem HasFile.setBits_eq_ok {octets : Octets} (h : fs.HasFile temporary octets) (bits : Nat) :
    ∃ done, fs.perform (.setBits temporary bits) = .ok done := by
  obtain ⟨old, hnode, -⟩ := h
  exact ⟨_, by rw [perform, hnode]⟩

end FileSystem

/-! ## Phases and temporary files -/

/-- A temporary file is there because it has been made. -/
theorem Phase.Next.created {path : Text} {content : Octets} {phase phase' : Phase}
    {action : DiskAction} {done : Except IoFault action.Answer} {temporary : Location}
    (h : Next path content phase action done phase') (ht : phase'.temporary? = some temporary) :
    phase.temporary? = some temporary ∨
      Event.changed action done =
        .changed (.createTemporary (Path.directory path)) (.ok temporary) := by
  cases h with
  | made => cases ht; exact Or.inr rfl
  | _ => first | exact Or.inl ht | cases ht

theorem Phases.created {path : Text} {content : Octets} {phase phase' : Phase} {es : List Event}
    {temporary : Location} (h : Phases path content phase es phase')
    (ht : phase'.temporary? = some temporary) :
    phase.temporary? = some temporary ∨
      .changed (.createTemporary (Path.directory path)) (.ok temporary) ∈ es := by
  induction h with
  | refl => exact Or.inl ht
  | other he rest ih => exact (ih ht).imp_right (List.mem_cons_of_mem _)
  | change next rest ih =>
    rcases ih ht with hbetween | hmem
    · rcases next.created hbetween with hbefore | hmade
      · exact Or.inl hbefore
      · rw [hmade]
        exact Or.inr List.mem_cons_self
    · exact Or.inr (List.mem_cons_of_mem _ hmem)

/-- The next phase depends on the change and not on the content. -/
theorem Phase.Next.unique {path : Text} {content content' : Octets} {phase phase₁ phase₂ : Phase}
    {action : DiskAction} {done : Except IoFault action.Answer}
    (h : Next path content phase action done phase₁)
    (k : Next path content' phase action done phase₂) : phase₁ = phase₂ := by
  cases h <;> cases k <;> rfl

/-- **Events lead to one phase**, whatever the content is thought to be. -/
theorem Phases.unique {path : Text} {content content' : Octets} {phase phase₁ phase₂ : Phase}
    {es : List Event} (h : Phases path content phase es phase₁)
    (k : Phases path content' phase es phase₂) : phase₁ = phase₂ := by
  induction h with
  | refl =>
    cases k
    rfl
  | other he rest ih =>
    cases k with
    | other _ rest' => exact ih rest'
    | change next rest' => cases he
  | change next rest ih =>
    cases k with
    | other he rest' => cases he
    | change next' rest' =>
      cases next.unique next'
      exact ih rest'

/-- A temporary file that is there no more has been renamed or removed. -/
theorem Phase.Next.gone {path : Text} {content : Octets} {phase phase' : Phase}
    {action : DiskAction} {done : Except IoFault action.Answer} {temporary : Location}
    {fs fs' : FileSystem} (h : Next path content phase action done phase')
    (hdisk : fs.Answered action done fs') (hremove : ∀ fault,
      action = .remove temporary → done ≠ .error fault)
    (hne : temporary ≠ []) {location : Location} (hlocate : fs.locate path = .ok location)
    (hlocation : location ≠ [] ∧ temporary ≠ location)
    (ht : phase.temporary? = some temporary) (ht' : phase'.temporary? ≠ some temporary) :
    fs'.node? temporary = none := by
  cases h with
  | replaced =>
    cases ht
    obtain ⟨target, node, htarget, -, rfl⟩ := FileSystem.of_rename hdisk
    rw [hlocate] at htarget
    cases htarget
    rw [FileSystem.node?_put hlocation.1, if_neg hlocation.2, FileSystem.node?_erase hne,
      if_pos rfl]
  | removed _ answer =>
    cases ht
    rcases answer with fault | location'
    · exact absurd rfl (hremove fault rfl)
    · cases hdisk
      rw [FileSystem.node?_erase hne, if_pos rfl]
  | made => cases ht
  | unmade => cases ht
  | _ => exact absurd ht ht'

namespace Batch
namespace Pool

section
variable {start fs : FileSystem} {files : List StoredNotebook} {log : List (Nat × Event)}
  {answer : Call → Formatted}

/-- A task's own events are among those of the pool. -/
theorem mem_of_own {position : Nat} {e : Event} (h : e ∈ own position log) :
    (position, e) ∈ log := by
  obtain ⟨⟨other, e'⟩, hentry, heq⟩ := List.mem_filterMap.mp h
  split at heq
  · next hsame =>
    cases heq
    cases hsame
    exact hentry
  · cases heq

/-- **A temporary file is beside its file**, and names can be changed there, if it could be foreseen
where it is made. -/
theorem Whole.beside (hforeseen : ∀ entry ∈ log, entry.2.Foreseen answer start)
    {position : Nat} {file : StoredNotebook} {directory : Location} {name : Text}
    {content : Octets} {phase : Phase} {temporary : Location}
    (hstraight : start.Straight file.path directory name)
    (hphases : Phases file.path content .untouched (own position log) phase)
    (ht : phase.temporary? = some temporary) :
    temporary.dropLast = directory ∧ start.permitChange directory = .ok () := by
  rcases hphases.created ht with hnone | hmem
  · cases hnone
  · have hmade : Event.Foreseen answer start _ := hforeseen _ (mem_of_own hmem)
    exact hstraight.of_creation hmade.symm

/-- Whether a temporary file can be made is the same as at the start. -/
theorem Whole.foreseen_creation (h : Whole start files log fs) {path : Text}
    {directory : Location} {name : Text} (hstraight : start.Straight path directory name)
    {done : Except IoFault (DiskAction.createTemporary (Path.directory path)).Answer}
    (hdone : done = (fs.perform (.createTemporary (Path.directory path))).map Prod.snd) :
    (Event.changed (.createTemporary (Path.directory path)) done).Foreseen answer start := by
  rw [Event.Foreseen, hdone, ← hstraight.creation_mono h.directories]
  rcases fs.perform (.createTemporary (Path.directory path)) with fault | result <;> rfl

/-- **A temporary file that has been written can take the place of its file**, if it could be
foreseen where it is made. -/
theorem Whole.rename_eq_ok (h : Whole start files log fs)
    (hforeseen : ∀ entry ∈ log, entry.2.Foreseen answer start) {position : Nat}
    {file : StoredNotebook} {directory : Location} {name : Text} {original content : Octets}
    {temporary : Location} (hplace : file.place = directory ++ [name])
    (hstraight : start.Straight file.path directory name)
    (hphases : Phases file.path content .untouched (own position log) (.written temporary))
    (hholds : (Phase.written temporary).Holds fs file.place original content) :
    ∃ done, fs.perform (.rename temporary file.path) = .ok done := by
  obtain ⟨⟨bits, hnode, -⟩, bits', hnode', -⟩ := hholds
  obtain ⟨hbeside, hpermit⟩ := Whole.beside hforeseen hstraight hphases rfl
  obtain ⟨above, hdirectory⟩ := hstraight.node?_directory
  have hsame := (h.directories directory above hdirectory).trans hdirectory.symm
  refine (hstraight.mono h.directories).rename_eq_ok hbeside ?_ hnode' fun other hthere => ?_
  · rw [FileSystem.Straight.permitChange_congr hsame, hpermit]
  · rw [hplace, hthere] at hnode
    cases hnode

/-- **Whether an action on files succeeds could have been foreseen**, as far as anything hangs on
it. -/
theorem Whole.foreseen_change (h : Whole start files log fs) (hapart : Apart start files)
    (hforeseen : ∀ entry ∈ log, entry.2.Foreseen answer start) {position : Nat}
    {file : StoredNotebook} (hfile : files[position]? = some file) {action : DiskAction}
    {done : Except IoFault action.Answer} (hdone : done = (fs.perform action).map Prod.snd)
    (hcourse : ∃ content phase, Phases file.path content .untouched
      (own position (log ++ [(position, .changed action done)])) phase) :
    (Event.changed action done).Foreseen answer start := by
  obtain ⟨content, phase, hphases⟩ := hcourse
  obtain ⟨before, hbefore, hnext⟩ := phases_own_change hphases
  obtain ⟨directory, name, octets, hplace, hstraight, hhas⟩ :=
    hapart.place (List.mem_of_getElem? hfile)
  have hholds := h.holds position file content before octets hfile hbefore hhas
  -- what is done by an action that succeeds is known to have succeeded
  have hok : (∃ result, fs.perform action = .ok result) → ∃ answer, done = .ok answer := by
    rintro ⟨⟨disk, answer⟩, hperform⟩
    exact ⟨answer, by rw [hdone, hperform]; rfl⟩
  cases hnext with
  | made temporary => exact h.foreseen_creation hstraight hdone
  | unmade fault => exact h.foreseen_creation hstraight hdone
  | written temporary location =>
    obtain ⟨-, empty, hempty⟩ := hholds
    exact hok (hempty.write_eq_ok content)
  | unwritten temporary fault =>
    obtain ⟨-, empty, hempty⟩ := hholds
    exact hok (hempty.write_eq_ok content)
  | synced temporary location => exact hok ⟨_, rfl⟩
  | unsynced temporary fault => exact hok ⟨_, rfl⟩
  | found temporary bits => trivial
  | unfound temporary fault => trivial
  | adopted temporary location bits => exact hok (hholds.2.1.setBits_eq_ok bits)
  | unadopted temporary bits fault => exact hok (hholds.2.1.setBits_eq_ok bits)
  | replaced temporary location =>
    exact hok (h.rename_eq_ok hforeseen hplace hstraight hbefore hholds)
  | unreplaced temporary fault =>
    exact hok (h.rename_eq_ok hforeseen hplace hstraight hbefore hholds)
  | removed temporary => exact hok ⟨_, rfl⟩

end

/-- **All that a history tells could have been foreseen**, if nothing disturbed it. -/
theorem History.foreseen {answer : Call → Formatted} {plan : BatchPlan}
    {files : List StoredNotebook} {w : World} {log : List (Nat × Event)} {p : Pool}
    (h : History (.ofFunction answer) plan files w log p) (hapart : Apart w.disk files)
    (hcalm : w.CalmSince p.world) : ∀ entry ∈ log, entry.2.Foreseen answer w.disk := by
  induction h with
  | start => exact fun entry hentry => absurd hentry List.not_mem_nil
  | interrupt h begun ih =>
    have hcancelled := hcalm.cancelled
    simp [World.cancelled, World.interrupted] at hcancelled
  | @move log p h position t u e v begun at_position takes gives ih =>
    have hbefore := hcalm.before h.follows.mishaps_le gives
    have hlog := ih hbefore
    intro entry hentry
    rcases List.mem_append.mp hentry with hentry | hentry
    · exact hlog entry hentry
    · cases List.mem_singleton.mp hentry
      cases e with
      | answered call formatted =>
        cases gives
        rfl
      | polled cancelled => exact gives.cancelled.symm.trans hbefore.cancelled
      | announced outcome => trivial
      | changed action done =>
        obtain ⟨file, hfile, htrace⟩ := h.moved at_position takes
        refine (h.whole hapart).foreseen_change hapart hlog hfile
          (gives.answer_eq (hcalm.mishaps.trans hbefore.mishaps.symm)) (course_of_trace htrace)

/-! ## The rest of the disk -/

section
variable {start fs fs' : FileSystem} {files : List StoredNotebook} {log : List (Nat × Event)}

/-- The location is that of a temporary file. -/
def IsTemporary (files : List StoredNotebook) (log : List (Nat × Event)) (location : Location) :
    Prop :=
  ∃ (position : Nat) (file : StoredNotebook) (content : Octets) (phase : Phase),
    files[position]? = some file ∧
      Phases file.path content .untouched (own position log) phase ∧
      phase.temporary? = some location

/-- **What is at no file's place is as it was**, temporary files excepted, and those are where
nothing was. -/
structure Kept (start : FileSystem) (files : List StoredNotebook) (log : List (Nat × Event))
    (fs : FileSystem) : Prop where
  /-- Nothing else has been touched. -/
  others : ∀ location, (∀ file ∈ files, file.place ≠ location) → ¬ IsTemporary files log location →
    fs.node? location = start.node? location
  /-- There was nothing where a temporary file is. -/
  fresh : ∀ location, IsTemporary files log location → start.node? location = none

theorem Kept.init : Kept start files [] start := by
  refine ⟨fun _ _ _ => rfl, ?_⟩
  rintro location ⟨position, file, content, phase, -, hphases, ht⟩
  cases hphases
  cases ht

/-- Events without a change make and remove no temporary file. -/
theorem isTemporary_snoc {e : Event} (he : e.isChange = false) (moved : Nat)
    {location : Location} :
    IsTemporary files (log ++ [(moved, e)]) location ↔ IsTemporary files log location := by
  simp only [IsTemporary, phases_own_snoc he]

/-- A temporary file is somewhere. -/
theorem Whole.temporary_ne_none (h : Whole start files log fs) (hapart : Apart start files)
    {location : Location} (ht : IsTemporary files log location) : fs.node? location ≠ none := by
  obtain ⟨position, file, content, phase, hfile, hphases, ht⟩ := ht
  obtain ⟨-, -, octets, -, -, hhas⟩ := hapart.place (List.mem_of_getElem? hfile)
  exact (h.holds position file content phase octets hfile hphases hhas).temporary_ne_none ht

/-- **A temporary file that is none any more is gone**: it was that of the task that moved. -/
theorem Whole.temporary_gone (h : Whole start files log fs) (hapart : Apart start files)
    {position : Nat} {file : StoredNotebook} (hfile : files[position]? = some file)
    {action : DiskAction} {done : Except IoFault action.Answer}
    (hdisk : fs.Answered action done fs')
    (hremove : ∀ temporary fault, action = .remove temporary → done ≠ .error fault)
    {content : Octets} {before phase : Phase}
    (hbefore : Phases file.path content .untouched (own position log) before)
    (hphases : Phases file.path content .untouched
      (own position (log ++ [(position, .changed action done)])) phase)
    (hnext : before.Next file.path content action done phase) {location : Location}
    (hold : IsTemporary files log location)
    (hnone : ¬ IsTemporary files (log ++ [(position, .changed action done)]) location) :
    fs'.node? location = none := by
  obtain ⟨position', file', content', phase', hfile', hphases', ht⟩ := hold
  have hmoved : position = position' := by
    by_contra hne
    exact hnone ⟨position', file', content', phase', hfile', by rwa [own_snoc_other hne], ht⟩
  subst hmoved
  cases hfile.symm.trans hfile'
  cases hbefore.unique hphases'
  have hmem := List.mem_of_getElem? hfile
  obtain ⟨directory, name, -, hplace, hstraight, -⟩ := hapart.place hmem
  obtain ⟨hne, -, hplaces⟩ := h.temporaries position file content before location hfile hbefore ht
  refine hnext.gone hdisk (hremove location) hne
    (hplace ▸ (hstraight.mono h.directories).locate) ⟨?_, (hplaces file hmem).symm⟩ ht
    fun ht' => hnone ⟨position, file, content, phase, hfile, hphases, ht'⟩
  rw [hplace]
  simp

/-- **A change of files that could be foreseen leaves the rest of the disk as it was.** -/
theorem Kept.change (h : Kept start files log fs) (hwhole : Whole start files log fs)
    (hapart : Apart start files) {position : Nat} {file : StoredNotebook}
    (hfile : files[position]? = some file) {action : DiskAction}
    {done : Except IoFault action.Answer}
    (hdisk : fs.Answered action done fs')
    (hremove : ∀ temporary fault, action = .remove temporary → done ≠ .error fault)
    (hcourse : ∃ content phase, Phases file.path content .untouched
      (own position (log ++ [(position, .changed action done)])) phase) :
    Kept start files (log ++ [(position, .changed action done)]) fs' := by
  obtain ⟨content, phase, hphases⟩ := hcourse
  obtain ⟨before, hbefore, hnext⟩ := phases_own_change hphases
  have hmem := List.mem_of_getElem? hfile
  obtain ⟨-, -, original, -, -, hhas⟩ := hapart.place hmem
  have heffect := hwhole.effect hapart hfile hdisk hhas hbefore hnext
  constructor
  · intro location hplaces hnone
    by_cases hold : IsTemporary files log location
    · rw [h.fresh location hold]
      exact hwhole.temporary_gone hapart hfile hdisk hremove hbefore hphases hnext hold hnone
    · rw [heffect.frame location (hplaces file hmem).symm ?_, h.others location hplaces hold]
      rintro temporary (ht | ht) rfl
      · exact hold ⟨position, file, content, before, hfile, hbefore, ht⟩
      · exact hnone ⟨position, file, content, phase, hfile, hphases, ht⟩
  · rintro location ⟨position', file', content', phase', hfile', hphases', ht⟩
    rcases own_or_other hfile hfile' hphases' with
      ⟨rfl, rfl, before', hbefore', hnext'⟩ | ⟨-, hphases'⟩
    · have heffect' := hwhole.effect hapart hfile hdisk hhas hbefore' hnext'
      rcases heffect'.temporary location ht with hold | ⟨-, hnone⟩
      · exact h.fresh location ⟨position, file, content', before', hfile, hbefore', hold⟩
      · -- a new temporary file is where nothing is, so it is at no file's place and at no other
        -- temporary file's
        rw [← h.others location ?_ ?_, hnone]
        · rintro other hother rfl
          exact hwhole.place_ne_none hapart hother hnone
        · exact fun htemporary => hwhole.temporary_ne_none hapart htemporary hnone
    · exact h.fresh location ⟨position', file', content', phase', hfile', hphases', ht⟩

end

theorem History.kept {answer : Call → Formatted} {plan : BatchPlan} {files : List StoredNotebook}
    {w : World} {log : List (Nat × Event)} {p : Pool}
    (h : History (.ofFunction answer) plan files w log p) (hapart : Apart w.disk files)
    (hforeseen : ∀ entry ∈ log, entry.2.Foreseen answer w.disk) :
    Kept w.disk files log p.world.disk := by
  induction h with
  | start => exact .init
  | interrupt h begun ih => exact ih hforeseen
  | @move log p h position t u e v begun at_position takes gives ih =>
    have hlog := ih fun entry hentry => hforeseen entry (List.mem_append_left _ hentry)
    by_cases he : e.isChange = true
    · cases e with
      | changed action done =>
        obtain ⟨file, hfile, htrace⟩ := h.moved at_position takes
        refine hlog.change (h.whole hapart) hapart hfile gives.answered_disk ?_
          (course_of_trace htrace)
        rintro temporary fault rfl rfl
        obtain ⟨location, hlocation⟩ :=
          hforeseen _ (List.mem_append_right _ List.mem_cons_self)
        cases hlocation
      | _ => cases he
    · have hquiet : e.isChange = false := Bool.eq_false_iff.mpr he
      change Kept w.disk files _ v.disk
      rw [gives.disk_of_not_change hquiet]
      exact ⟨by simpa only [isTemporary_snoc hquiet] using hlog.others,
        by simpa only [isTemporary_snoc hquiet] using hlog.fresh⟩

/-- When a task has ended, it has no temporary file. -/
theorem temporary_of_ended {plan : BatchPlan} {file : StoredNotebook} {es : List Event}
    {result : Option Outcome} (h : Task.Trace (task plan file) es (.done result))
    {content : Octets} {phase : Phase} (hphases : Phases file.path content .untouched es phase) :
    phase.temporary? = none := by
  rcases phases_task h with
    ⟨hquiet, -⟩ | ⟨-, -, texts, rejections, phase', -, -, -, hphases', hended⟩
  · have huntouched : Phases file.path content .untouched es .untouched := .of_quiet hquiet _
    rw [hphases.unique huntouched]
    rfl
  · rw [hphases.unique hphases']
    exact (hended result rfl).2

/-- **In the end the rest of the disk is as it was.** -/
theorem History.rest_eq {answer : Call → Formatted} {plan : BatchPlan}
    {files : List StoredNotebook} {w after : World} {log : List (Nat × Event)}
    {results : List (Option Outcome)} {begun : List Bool}
    (h : History (.ofFunction answer) plan files w log ⟨results.map .done, begun, after⟩)
    (hapart : Apart w.disk files) (hcalm : w.CalmSince after) {location : Location}
    (hplaces : ∀ file ∈ files, file.place ≠ location) :
    after.disk.node? location = w.disk.node? location := by
  refine (h.kept hapart (h.foreseen hapart hcalm)).others location hplaces ?_
  rintro ⟨position, file, content, phase, hfile, hphases, ht⟩
  have hlength : results.length = files.length := by simpa using h.length_tasks
  have hlt : position < results.length := by
    rw [hlength]
    exact (List.getElem?_eq_some_iff.mp hfile).1
  have htrace := h.trace hfile (t := .done results[position]) (by simp [hlt])
  rw [temporary_of_ended htrace hphases] at ht
  cases ht

end Pool
end Batch
end NotebookTidy
