import NotebookTidy.Proofs.CellTraces
import NotebookTidy.Proofs.EventKinds
import NotebookTidy.Proofs.Stops

/-!
# The course of a replacement

A task changes files in one way only: it replaces one file by way of a temporary one.  How far it
has got with that is its **phase**, which can be told from its events alone (`Phases`).  Before it
makes the temporary file it touches nothing, and it makes one only after all code cells have been
formatted; so behind every change there is a complete notebook (`Batch.phases_task`).

`Task.Proceeds` is the judgement by which phases are told of partial traces as well as of complete
ones, with one rule for each kind of node.
-/

namespace NotebookTidy

/-- The event is an action on files, or the failure of one. -/
def Event.isChange : Event → Bool
  | .changed _ _ => true
  | _ => false

/-- How far the replacement of a file has got. -/
inductive Phase where
  /-- Nothing has been done. -/
  | untouched
  /-- There is a temporary file. -/
  | made (temporary : Location)
  /-- The temporary file has the new content. -/
  | written (temporary : Location)
  /-- It has the new content, and these are the permission bits that it is to get. -/
  | known (temporary : Location) (bits : Nat)
  /-- The temporary file is to be removed. -/
  | failing (temporary : Location)
  /-- The replacement has been given up. -/
  | abandoned
  /-- The file has been replaced. -/
  | replaced
deriving DecidableEq

/-- The temporary file that is there in a phase. -/
def Phase.temporary? : Phase → Option Location
  | .made temporary => some temporary
  | .written temporary => some temporary
  | .known temporary _ => some temporary
  | .failing temporary => some temporary
  | _ => none

/-- **One action on files**, in the replacement of what a path names by a content. -/
inductive Phase.Next (path : Text) (content : Octets) :
    Phase → (action : DiskAction) → Except IoFault action.Answer → Phase → Prop where
  | made (temporary : Location) :
    Next path content .untouched (.createTemporary (Path.directory path)) (.ok temporary)
      (.made temporary)
  | unmade (fault : IoFault) :
    Next path content .untouched (.createTemporary (Path.directory path)) (.error fault) .abandoned
  | written (temporary location : Location) :
    Next path content (.made temporary) (.write temporary content) (.ok location)
      (.written temporary)
  | unwritten (temporary : Location) (fault : IoFault) :
    Next path content (.made temporary) (.write temporary content) (.error fault)
      (.failing temporary)
  | synced (temporary location : Location) :
    Next path content (.written temporary) (.sync temporary) (.ok location) (.written temporary)
  | unsynced (temporary : Location) (fault : IoFault) :
    Next path content (.written temporary) (.sync temporary) (.error fault) (.failing temporary)
  | found (temporary : Location) (bits : Nat) :
    Next path content (.written temporary) (.lookUp path) (.ok bits) (.known temporary bits)
  | unfound (temporary : Location) (fault : IoFault) :
    Next path content (.written temporary) (.lookUp path) (.error fault) (.written temporary)
  | adopted (temporary location : Location) (bits : Nat) :
    Next path content (.known temporary bits) (.setBits temporary bits) (.ok location)
      (.written temporary)
  | unadopted (temporary : Location) (bits : Nat) (fault : IoFault) :
    Next path content (.known temporary bits) (.setBits temporary bits) (.error fault)
      (.failing temporary)
  | replaced (temporary location : Location) :
    Next path content (.written temporary) (.rename temporary path) (.ok location) .replaced
  | unreplaced (temporary : Location) (fault : IoFault) :
    Next path content (.written temporary) (.rename temporary path) (.error fault)
      (.failing temporary)
  | removed (temporary : Location) (answer : Except IoFault (DiskAction.remove temporary).Answer) :
    Next path content (.failing temporary) (.remove temporary) answer .abandoned

/-- **From phase to phase**, along events. -/
inductive Phases (path : Text) (content : Octets) : Phase → List Event → Phase → Prop where
  | refl (phase : Phase) : Phases path content phase [] phase
  | other {phase phase' : Phase} {e : Event} {es : List Event} (h : e.isChange = false)
    (rest : Phases path content phase es phase') : Phases path content phase (e :: es) phase'
  | change {phase between phase' : Phase} {action : DiskAction}
    {answer : Except IoFault action.Answer} {es : List Event}
    (next : Phase.Next path content phase action answer between)
    (rest : Phases path content between es phase') :
    Phases path content phase (.changed action answer :: es) phase'

namespace Phases
variable {path : Text} {content : Octets}

theorem trans {phase between phase' : Phase} {es fs : List Event}
    (h : Phases path content phase es between) (k : Phases path content between fs phase') :
    Phases path content phase (es ++ fs) phase' := by
  induction h with
  | refl => exact k
  | other h rest ih => exact .other h (ih k)
  | change next rest ih => exact .change next (ih k)

theorem cut {phase phase' : Phase} {es fs : List Event}
    (h : Phases path content phase (es ++ fs) phase') :
    ∃ between, Phases path content phase es between ∧ Phases path content between fs phase' := by
  induction es generalizing phase with
  | nil => exact ⟨phase, .refl phase, h⟩
  | cons e es ih =>
    cases h with
    | other hchange rest =>
      obtain ⟨between, hfirst, hsecond⟩ := ih rest
      exact ⟨between, .other hchange hfirst, hsecond⟩
    | change next rest =>
      obtain ⟨between, hfirst, hsecond⟩ := ih rest
      exact ⟨between, .change next hfirst, hsecond⟩

/-- Events without a change leave the phase as it is. -/
theorem of_quiet {es : List Event} (h : ∀ e ∈ es, e.isChange = false) (phase : Phase) :
    Phases path content phase es phase := by
  induction es with
  | nil => exact .refl phase
  | cons e es ih =>
    obtain ⟨he, hes⟩ := List.forall_mem_cons.mp h
    exact .other he (ih hes)

end Phases

namespace Task
variable {α β : Type}

/-! ## Tasks that replace a file -/

/-- **A judgement on all ways through a task, complete or not**: from a phase they lead to phases,
and a phase at the end fits the result. -/
def Proceeds (path : Text) (content : Octets) (phase : Phase) (t : Task α)
    (fits : α → Phase → Prop) : Prop :=
  ∀ es u, Trace t es u → ∃ phase', Phases path content phase es phase' ∧
    ∀ a, u = .done a → fits a phase'

namespace Proceeds
variable {path : Text} {content : Octets} {phase : Phase} {fits : α → Phase → Prop}

theorem done {a : α} (h : fits a phase) : Proceeds path content phase (.done a) fits := by
  intro es u htrace
  obtain ⟨rfl, rfl⟩ := htrace.of_done
  refine ⟨phase, .refl phase, fun b hb => ?_⟩
  cases hb
  exact h

theorem disk {action : DiskAction} {next : Except IoFault action.Answer → Task α}
    (h : ∀ answer, ∃ between, Phase.Next path content phase action answer between ∧
      Proceeds path content between (next answer) fits) :
    Proceeds path content phase (.disk action next) fits := by
  intro es u htrace
  cases htrace with
  | refl => exact ⟨phase, .refl phase, fun a ha => nomatch ha⟩
  | cons first rest =>
    cases first with
    | disk _ _ answer =>
      obtain ⟨between, hnext, hproceeds⟩ := h answer
      obtain ⟨phase', hphases, hfits⟩ := hproceeds _ _ rest
      exact ⟨phase', .change hnext hphases, hfits⟩

theorem poll {next : Bool → Task α}
    (h : ∀ cancelled, Proceeds path content phase (next cancelled) fits) :
    Proceeds path content phase (.poll next) fits := by
  intro es u htrace
  cases htrace with
  | refl => exact ⟨phase, .refl phase, fun a ha => nomatch ha⟩
  | cons first rest =>
    cases first with
    | poll _ cancelled =>
      obtain ⟨phase', hphases, hfits⟩ := h cancelled _ _ rest
      exact ⟨phase', .other rfl hphases, hfits⟩

theorem announce {outcome : Outcome} {next : Task α}
    (h : Proceeds path content phase next fits) :
    Proceeds path content phase (.announce outcome next) fits := by
  intro es u htrace
  cases htrace with
  | refl => exact ⟨phase, .refl phase, fun a ha => nomatch ha⟩
  | cons first rest =>
    cases first
    obtain ⟨phase', hphases, hfits⟩ := h _ _ rest
    exact ⟨phase', .other rfl hphases, hfits⟩

theorem bind {t : Task β} {f : β → Task α} {fits' : β → Phase → Prop}
    (ht : Proceeds path content phase t fits')
    (hf : ∀ b between, fits' b between → Proceeds path content between (f b) fits) :
    Proceeds path content phase (t.bind f) fits := by
  intro es u htrace
  rcases htrace.bind_cut with ⟨s, hs, -, hu⟩ | ⟨fs, gs, b, rfl, hfirst, hsecond⟩
  · obtain ⟨phase', hphases, -⟩ := ht es s hs
    exact ⟨phase', hphases, fun a ha => absurd ha (hu a)⟩
  · obtain ⟨between, hphases, hfits⟩ := ht fs _ hfirst
    obtain ⟨phase', hphases', hfits'⟩ := hf b between (hfits b rfl) gs u hsecond
    exact ⟨phase', hphases.trans hphases', hfits'⟩

end Proceeds

/-- What installing a temporary file comes to: it has taken the place of the file, or it is to be
removed after a failure. -/
def Installed (temporary : Location) (result : Except IoFault Unit) (phase : Phase) : Prop :=
  (result = .ok () ∧ phase = .replaced) ∨
    ∃ fault, result = .error fault ∧ phase = .failing temporary

section
variable (path : Text) (content : Octets) (temporary : Location)

theorem proceeds_rename :
    Proceeds path content (.written temporary) (changeAll [.rename temporary path])
      (Installed temporary) := by
  refine .disk fun answer => ?_
  rcases answer with fault | location
  · exact ⟨_, .unreplaced temporary fault, .done (Or.inr ⟨fault, rfl, rfl⟩)⟩
  · exact ⟨_, .replaced temporary location, .done (Or.inl ⟨rfl, rfl⟩)⟩

/-- A temporary file takes the place of the file with other bits, or with its own. -/
theorem proceeds_adopt :
    Proceeds path content (.written temporary) (adopt path temporary) (Installed temporary) := by
  rw [adopt_eq]
  refine .disk fun answer => ?_
  rcases answer with fault | bits
  · exact ⟨_, .unfound temporary fault, proceeds_rename path content temporary⟩
  refine ⟨_, .found temporary bits, .disk fun answer => ?_⟩
  rcases answer with fault | location
  · exact ⟨_, .unadopted temporary bits fault, .done (Or.inr ⟨fault, rfl, rfl⟩)⟩
  · exact ⟨_, .adopted temporary location bits, proceeds_rename path content temporary⟩

/-- A temporary file is installed from phase to phase. -/
theorem proceeds_install :
    Proceeds path content (.made temporary) (install path content temporary)
      (Installed temporary) := by
  have hfilled : Proceeds path content (.made temporary)
      (changeAll [.write temporary content, .sync temporary]) fun result phase =>
        (result = .ok () ∧ phase = .written temporary) ∨
          ∃ fault, result = .error fault ∧ phase = .failing temporary := by
    refine .disk fun answer => ?_
    rcases answer with fault | location
    · exact ⟨_, .unwritten temporary fault, .done (Or.inr ⟨fault, rfl, rfl⟩)⟩
    refine ⟨_, .written temporary location, .disk fun answer => ?_⟩
    rcases answer with fault | location
    · exact ⟨_, .unsynced temporary fault, .done (Or.inr ⟨fault, rfl, rfl⟩)⟩
    · exact ⟨_, .synced temporary location, .done (Or.inl ⟨rfl, rfl⟩)⟩
  rw [install_eq]
  refine .bind hfilled ?_
  rintro result phase (⟨rfl, rfl⟩ | ⟨fault, rfl, rfl⟩)
  · exact proceeds_adopt path content temporary
  · exact .done (Or.inr ⟨fault, rfl, rfl⟩)

end

/-- **The replacement of a file goes from phase to phase**, and ends with the file replaced or
with the replacement given up. -/
theorem proceeds_replaceFile (path : Text) (content : Octets) :
    Proceeds path content .untouched (replaceFile path content) fun result phase =>
      (result = .ok () ↔ phase = .replaced) ∧ phase.temporary? = none := by
  rw [replaceFile_eq]
  refine .disk fun answer => ?_
  rcases answer with fault | temporary
  · exact ⟨_, .unmade fault, .done ⟨by simp, rfl⟩⟩
  · refine ⟨_, .made temporary, .bind (proceeds_install path content temporary) ?_⟩
    rintro result phase (⟨rfl, rfl⟩ | ⟨fault, rfl, rfl⟩)
    · exact .done ⟨by simp, rfl⟩
    · -- the failure is the result, however the removal ends
      exact .disk fun answer => ⟨_, .removed temporary answer, .done ⟨by simp, rfl⟩⟩

end Task

/-! ## Formatting changes no files -/

/-- No way through the task changes files. -/
def Task.Quiet {α : Type} (t : Task α) : Prop := t.Avoids Event.isChange

theorem Notebook.quiet_format (mode : Mode) (n : Notebook) : (n.format mode).Quiet :=
  n.avoids_format (fun _ _ => rfl) (fun _ => rfl) mode

/-! ## The task of a file -/

namespace Batch

/-- A report only announces. -/
theorem avoids_report {kind : Event → Bool} (h : ∀ outcome, kind (.announced outcome) = false)
    (outcome : Outcome) : (report outcome).Avoids kind := by
  rcases outcome with error | finding
  · cases error <;> first | exact .done _ | exact .announce (h _) (.done _)
  · exact .announce (h _) (.done _)

theorem quiet_report (outcome : Outcome) : (report outcome).Quiet := avoids_report (fun _ => rfl) _

/-- **A check changes no files.** -/
theorem quiet_task {plan : BatchPlan} (h : plan.action = .check) (file : StoredNotebook) :
    (task plan file).Quiet := by
  rw [task_eq]
  refine .poll (fun _ => rfl) fun cancelled => ?_
  cases cancelled
  · refine .bind ?_ quiet_report
    rw [h]
    exact file.avoids_check (fun _ _ => rfl) (fun _ => rfl) plan.mode
  · exact .done _

/-- The outcome is that the file was written anew. -/
def IsReformatted (path : Text) (result : Option Outcome) : Prop :=
  ∃ rejections, result = some (.ok ⟨path, .reformatted, rejections⟩)

/-- **A report** either announces its outcome and ends with it, or does nothing and ends with
none. -/
theorem trace_report {outcome : Outcome} {es : List Event} {result : Option Outcome}
    (h : Task.Trace (report outcome) es (.done result)) :
    es = [] ∧ result = none ∨ es = [.announced outcome] ∧ result = some outcome := by
  have hannounced {outcome : Outcome}
      (h : Task.Trace (.announce outcome (.done (some outcome))) es (.done result)) :
      es = [.announced outcome] ∧ result = some outcome := by
    obtain ⟨fs, rfl, hrest⟩ := h.of_announce
    obtain ⟨rfl, hresult⟩ := hrest.of_done
    cases hresult
    exact ⟨rfl, rfl⟩
  rcases outcome with error | finding
  · cases error with
    | cancelled =>
      obtain ⟨rfl, hresult⟩ := h.of_done
      cases hresult
      exact Or.inl ⟨rfl, rfl⟩
    | _ => exact Or.inr (hannounced h)
  · exact Or.inr (hannounced h)

/-- What is saved is written, and it is reported so exactly if the file was replaced. -/
theorem proceeds_save (path : Text) (notebook : Notebook) (rejections : Rejections) :
    Task.Proceeds path (Utf8.encode notebook.write) .untouched
      ((StoredNotebook.save path notebook rejections).bind report) fun result phase =>
        (IsReformatted path result ↔ phase = .replaced) ∧ phase.temporary? = none := by
  rw [StoredNotebook.save_eq]
  refine .poll fun cancelled => ?_
  cases cancelled
  · rw [Task.bind_assoc]
    refine .bind (Task.proceeds_replaceFile path _) ?_
    rintro (fault | ⟨⟩) phase ⟨hphase, hnone⟩
    · have hnot : ¬ phase = .replaced := fun h => nomatch hphase.mpr h
      refine .announce (.done ⟨?_, hnone⟩)
      simp [IsReformatted, hnot]
    · have hreplaced : phase = .replaced := hphase.mp rfl
      refine .announce (.done ⟨?_, hnone⟩)
      simp [IsReformatted, hreplaced]
  · exact .done ⟨by simp [IsReformatted], rfl⟩

/-! ## The two courses of a task -/

/-- **The file is spared**: nothing has been changed, and no report says that it was written
anew. -/
def Spared (path : Text) (es : List Event) (t : Task (Option Outcome)) : Prop :=
  (∀ e ∈ es, e.isChange = false) ∧ ∀ result, t = .done result → ¬ IsReformatted path result

/-- **The file is being replaced**: the whole notebook has been formatted, which made another one of
it, the replacement of the file by that notebook has got to some phase, and when the task ends it
reports that the file was written anew exactly if it was replaced, and there is no temporary
file. -/
def Replacing (mode : Mode) (file : StoredNotebook) (es : List Event)
    (t : Task (Option Outcome)) : Prop :=
  ∃ fs texts rejections phase, fs.Sublist es ∧
    Reformats mode file.notebook.codeCells .empty fs texts rejections ∧
    file.notebook.setSources texts ≠ file.notebook ∧
    Phases file.path (Utf8.encode (file.notebook.setSources texts).write) .untouched es phase ∧
    ∀ result, t = .done result →
      (IsReformatted file.path result ↔ phase = .replaced) ∧ phase.temporary? = none

theorem Spared.after {path : Text} {es fs : List Event} {t : Task (Option Outcome)}
    (h : Spared path fs t) (hes : ∀ e ∈ es, e.isChange = false) : Spared path (es ++ fs) t := by
  refine ⟨fun e he => ?_, h.2⟩
  rcases List.mem_append.mp he with he | he
  · exact hes e he
  · exact h.1 e he

theorem Replacing.after {mode : Mode} {file : StoredNotebook} {es fs : List Event}
    {t : Task (Option Outcome)} (h : Replacing mode file fs t)
    (hes : ∀ e ∈ es, e.isChange = false) : Replacing mode file (es ++ fs) t := by
  obtain ⟨gs, texts, rejections, phase, hsublist, hreformats, hchanged, hphases, hresult⟩ := h
  exact ⟨gs, texts, rejections, phase, hsublist.trans (List.sublist_append_right es fs), hreformats,
    hchanged, (Phases.of_quiet hes .untouched).trans hphases, hresult⟩

/-- A file is spared by the report of another outcome. -/
theorem spared_report {path : Text} {outcome : Outcome} {es : List Event}
    {t : Task (Option Outcome)} (h : Task.Trace (report outcome) es t)
    (houtcome : ∀ rejections, outcome ≠ .ok ⟨path, .reformatted, rejections⟩) :
    Spared path es t := by
  refine ⟨quiet_report outcome es t h, ?_⟩
  rintro result rfl ⟨rejections, rfl⟩
  rcases trace_report h with ⟨-, hnone⟩ | ⟨-, hsome⟩
  · cases hnone
  · exact houtcome rejections (Option.some.inj hsome).symm

/-- **A check spares its file.** -/
theorem spared_of_check {plan : BatchPlan} (haction : plan.action = .check)
    {file : StoredNotebook} {es : List Event} {t : Task (Option Outcome)}
    (h : Task.Trace (task plan file) es t) : Spared file.path es t := by
  refine ⟨quiet_task haction file es t h, ?_⟩
  rintro result rfl
  rw [task_eq] at h
  obtain ⟨cancelled, fs, rfl, hasked⟩ := h.of_poll
  cases cancelled
  · rw [haction] at hasked
    change Task.Trace ((file.check plan.mode).bind report) fs (.done result) at hasked
    rw [StoredNotebook.check_eq, Task.bind_assoc] at hasked
    obtain ⟨-, gs, checked, -, -, hreport⟩ := hasked.bind_ended
    rcases checked with error | ⟨formatted, rejections⟩
    · exact (spared_report hreport fun _ => nofun).2 result rfl
    · cases formatted
      · exact (spared_report hreport (by simp)).2 result rfl
      · exact (spared_report hreport (by simp)).2 result rfl
  · cases hasked.of_done.2
    simp [IsReformatted]

/-- **The formatting of a file and its report**: the file is spared, or it is being replaced. -/
theorem phases_format {mode : Mode} {file : StoredNotebook} {es : List Event}
    {t : Task (Option Outcome)} (h : Task.Trace ((file.format mode).bind report) es t) :
    Spared file.path es t ∨ Replacing mode file es t := by
  rw [StoredNotebook.format_eq, Task.bind_assoc] at h
  rcases h.bind_cut with ⟨s, hs, -, ht⟩ | ⟨fs, gs, ⟨n', result⟩, rfl, hformat, hrest⟩
  · -- the notebook is still being formatted
    exact Or.inl ⟨file.notebook.quiet_format mode es s hs,
      fun result hresult => absurd hresult (ht result)⟩
  · have hquiet := file.notebook.quiet_format mode fs _ hformat
    rcases result with error | ⟨changed, rejections⟩
    · have hreport : Task.Trace (report (.error (StoredNotebook.failure file.path error))) gs t :=
        hrest
      exact Or.inl ((spared_report hreport fun _ => nofun).after hquiet)
    · cases changed
      · exact Or.inl ((spared_report hrest (by simp)).after hquiet)
      · -- all cells have been formatted, and what follows is the replacement
        obtain ⟨texts, hreformats, rfl, hchanged⟩ := Notebook.trace_format hformat
        obtain ⟨phase, hphases, hresult⟩ := proceeds_save _ _ _ gs t hrest
        exact Or.inr ⟨fs, texts, rejections, phase, List.sublist_append_left fs gs, hreformats,
          of_decide_eq_true hchanged.symm, (Phases.of_quiet hquiet .untouched).trans hphases,
          hresult⟩

/-- **The course of a file's task**, complete or not: the file is spared, or it is being replaced,
and then it is not a check. -/
theorem phases_task {plan : BatchPlan} {file : StoredNotebook} {es : List Event}
    {t : Task (Option Outcome)} (h : Task.Trace (task plan file) es t) :
    Spared file.path es t ∨ plan.action = .format ∧ Replacing plan.mode file es t := by
  cases haction : plan.action with
  | check => exact Or.inl (spared_of_check haction h)
  | format =>
    rw [task_eq, haction] at h
    cases h with
    | refl => exact Or.inl ⟨by simp, nofun⟩
    | @cons _ _ _ e es first rest =>
      obtain - | ⟨-, cancelled⟩ := first
      have hpoll : ∀ e ∈ [Event.polled cancelled], e.isChange = false := by simp [Event.isChange]
      cases cancelled
      · rcases phases_format rest with hspared | hreplacing
        · exact Or.inl (hspared.after hpoll)
        · exact Or.inr ⟨rfl, hreplacing.after hpoll⟩
      · obtain ⟨rfl, rfl⟩ := rest.of_done
        refine Or.inl ⟨hpoll, fun result hresult => ?_⟩
        cases hresult
        simp [IsReformatted]

end Batch

end NotebookTidy
