import NotebookTidy.Proofs.Replacement

/-!
# Results that are forced

A task may go many ways, but if the formatter answers by a function, nobody cancels, and files can
be changed exactly if they could be at the start, then all ways through the task of a file lead to
the same result (`Batch.forced_task`).  What the answers depend on is said of each event by itself
(`Event.Foreseen`), so it does not matter what else happens between two of them.
-/

namespace NotebookTidy

namespace Event

/-- **The answer could have been foreseen**, from what the formatter makes of code and from the disk
at the start.  Of a new temporary file only the directory can be foreseen, and of a look-up nothing
need be, since nothing hangs on whether it fails. -/
def Foreseen (answer : Call → Formatted) (start : FileSystem) : Event → Prop
  | .answered call formatted => formatted = answer call
  | .polled cancelled => cancelled = false
  | .changed (.createTemporary path) made =>
    made.map List.dropLast =
      (start.perform (.createTemporary path)).map fun made => made.2.dropLast
  | .changed (.lookUp _) _ => True
  | .changed _ done => ∃ location, done = .ok location
  | .announced _ => True

/-- The outcome that is announced. -/
def outcome? : Event → Option Outcome
  | .announced outcome => some outcome
  | _ => none

end Event

namespace Task
variable {α β : Type} {answer : Call → Formatted} {start : FileSystem}

/-- **Every way through the task ends with this result**, if all answers could have been
foreseen. -/
def Forced (answer : Call → Formatted) (start : FileSystem) (t : Task α) (a : α) : Prop :=
  ∀ es b, Trace t es (.done b) → (∀ e ∈ es, e.Foreseen answer start) → b = a

namespace Forced
variable {a : α}

theorem done (a : α) : Forced answer start (.done a) a := by
  intro es b htrace _
  cases htrace.of_done.2
  rfl

theorem ask {call : Call} {next : Formatted → Task α}
    (h : Forced answer start (next (answer call)) a) : Forced answer start (.ask call next) a := by
  intro es b htrace hforeseen
  obtain ⟨formatted, fs, rfl, hrest⟩ := htrace.of_ask
  obtain ⟨hfirst, hothers⟩ := List.forall_mem_cons.mp hforeseen
  cases hfirst
  exact h fs b hrest hothers

theorem poll {next : Bool → Task α} (h : Forced answer start (next false) a) :
    Forced answer start (.poll next) a := by
  intro es b htrace hforeseen
  obtain ⟨cancelled, fs, rfl, hrest⟩ := htrace.of_poll
  obtain ⟨hfirst, hothers⟩ := List.forall_mem_cons.mp hforeseen
  cases hfirst
  exact h fs b hrest hothers

theorem disk {action : DiskAction} {next : Except IoFault action.Answer → Task α}
    (h : ∀ done, (Event.changed action done).Foreseen answer start →
      Forced answer start (next done) a) : Forced answer start (.disk action next) a := by
  intro es b htrace hforeseen
  obtain ⟨done, fs, rfl, hrest⟩ := htrace.of_disk
  obtain ⟨hfirst, hothers⟩ := List.forall_mem_cons.mp hforeseen
  exact h done hfirst fs b hrest hothers

theorem announce {outcome : Outcome} {next : Task α} (h : Forced answer start next a) :
    Forced answer start (.announce outcome next) a := by
  intro es b htrace hforeseen
  obtain ⟨fs, rfl, hrest⟩ := htrace.of_announce
  exact h fs b hrest (List.forall_mem_cons.mp hforeseen).2

theorem bind {t : Task β} {f : β → Task α} {b : β} (ht : Forced answer start t b)
    (hf : Forced answer start (f b) a) : Forced answer start (t.bind f) a := by
  intro es c htrace hforeseen
  obtain ⟨fs, gs, b', rfl, hfirst, hsecond⟩ := htrace.bind_ended
  cases ht fs b' hfirst fun e he => hforeseen e (List.mem_append_left _ he)
  exact hf gs c hsecond fun e he => hforeseen e (List.mem_append_right _ he)

end Forced

variable (answer : Call → Formatted) (start : FileSystem)

/-- **A task that changes no files has a forced result.** -/
theorem Quiet.forced {t : Task α} (h : t.Quiet) : ∃ a, Forced answer start t a := by
  induction t with
  | done a => exact ⟨a, .done a⟩
  | ask call next ih =>
    obtain ⟨a, ha⟩ := ih (answer call) (h.takes (.ask call next _)).2
    exact ⟨a, .ask ha⟩
  | poll next ih =>
    obtain ⟨a, ha⟩ := ih false (h.takes (.poll next _)).2
    exact ⟨a, .poll ha⟩
  | disk action next ih =>
    have hchange := (h.takes (.disk action next (.error .notFound))).1
    cases hchange
  | announce outcome next ih =>
    obtain ⟨a, ha⟩ := ih (h.takes (.announce outcome next)).2
    exact ⟨a, .announce ha⟩

theorem forced_rename (path : Text) (temporary : Location) :
    Forced answer start (changeAll [.rename temporary path]) (.ok ()) := by
  refine .disk ?_
  rintro - ⟨location, rfl⟩
  exact .done _

/-- Whether the bits can be looked up or not, the file is replaced. -/
theorem forced_adopt (path : Text) (temporary : Location) :
    Forced answer start (adopt path temporary) (.ok ()) := by
  rw [adopt_eq]
  refine .disk fun found _ => ?_
  rcases found with fault | bits
  · exact forced_rename answer start path temporary
  · refine .disk ?_
    rintro - ⟨location, rfl⟩
    exact forced_rename answer start path temporary

/-- Once there is a temporary file, the file is replaced. -/
theorem forced_install (path : Text) (content : Octets) (temporary : Location) :
    Forced answer start (install path content temporary) (.ok ()) := by
  have hfilled : Forced answer start
      (changeAll [.write temporary content, .sync temporary]) (.ok ()) := by
    refine .disk ?_
    rintro - ⟨location, rfl⟩
    refine .disk ?_
    rintro - ⟨location, rfl⟩
    exact .done _
  rw [install_eq]
  exact .bind hfilled (forced_adopt answer start path temporary)

/-- **A file is replaced exactly if there could have been a temporary file at the start.** -/
theorem forced_replaceFile (path : Text) (content : Octets) :
    ∃ result, Forced answer start (replaceFile path content) result := by
  rw [replaceFile_eq]
  rcases hmade : start.perform (.createTemporary (Path.directory path)) with fault | made
  · refine ⟨.error fault, .disk fun done hdone => ?_⟩
    rw [Event.Foreseen, hmade] at hdone
    rcases done with fault' | temporary
    · cases hdone
      exact .done _
    · cases hdone
  · refine ⟨.ok (), .disk fun done hdone => ?_⟩
    rw [Event.Foreseen, hmade] at hdone
    rcases done with fault' | temporary
    · cases hdone
    · exact .bind (forced_install answer start path content temporary) (.done _)

end Task

/-! ## The task of a file -/

namespace Batch
variable (answer : Call → Formatted) (start : FileSystem)

theorem forced_save (path : Text) (notebook : Notebook) (rejections : Rejections) :
    ∃ outcome, Task.Forced answer start (StoredNotebook.save path notebook rejections) outcome := by
  rw [StoredNotebook.save_eq]
  obtain ⟨fault | ⟨⟩, hresult⟩ :=
    Task.forced_replaceFile answer start path (Utf8.encode notebook.write)
  · exact ⟨_, .poll (.bind hresult (.done _))⟩
  · exact ⟨_, .poll (.bind hresult (.done _))⟩

theorem forced_process (action : Action) (mode : Mode) (file : StoredNotebook) :
    ∃ outcome, Task.Forced answer start (file.process action mode) outcome := by
  cases action with
  | check =>
    exact Task.Quiet.forced answer start (file.avoids_check (fun _ _ => rfl) (fun _ => rfl) mode)
  | format =>
    change ∃ outcome, Task.Forced answer start (file.format mode) outcome
    rw [StoredNotebook.format_eq]
    obtain ⟨⟨notebook, result⟩, hformat⟩ :=
      Task.Quiet.forced answer start (file.notebook.quiet_format mode)
    rcases result with error | ⟨changed, rejections⟩
    · exact ⟨_, .bind hformat (.done _)⟩
    · cases changed
      · exact ⟨_, .bind hformat (.done _)⟩
      · obtain ⟨outcome, hsave⟩ := forced_save answer start file.path notebook rejections
        exact ⟨outcome, .bind hformat hsave⟩

/-- **The task of a file has a forced result.** -/
theorem forced_task (plan : BatchPlan) (file : StoredNotebook) :
    ∃ result, Task.Forced answer start (task plan file) result := by
  obtain ⟨outcome, hprocess⟩ := forced_process answer start plan.action plan.mode file
  obtain ⟨result, hreport⟩ := Task.Quiet.forced answer start (quiet_report outcome)
  refine ⟨result, ?_⟩
  rw [task_eq]
  exact .poll (.bind hprocess hreport)

/-! ## What a task announces -/

/-- **A task announces its outcome**, once, and nothing else. -/
theorem announced_task {plan : BatchPlan} {file : StoredNotebook} {es : List Event}
    {result : Option Outcome} (h : Task.Trace (task plan file) es (.done result)) :
    es.filterMap Event.outcome? = result.toList := by
  rw [task_eq] at h
  obtain ⟨cancelled, fs, rfl, hasked⟩ := h.of_poll
  cases cancelled
  · obtain ⟨gs, hs, outcome, rfl, hprocess, hreport⟩ := hasked.bind_ended
    have hsilent : ∀ e ∈ gs, e.outcome? = none := by
      have havoids : (file.process plan.action plan.mode).Avoids fun e => e.outcome?.isSome :=
        file.avoids_process (fun _ _ => rfl) (fun _ => rfl) (fun _ _ => rfl) _ _
      exact fun e he => Option.not_isSome_iff_eq_none.mp
        (Bool.eq_false_iff.mp (havoids gs _ hprocess e he))
    rw [List.filterMap_cons_none rfl, List.filterMap_append,
      List.filterMap_eq_nil_iff.mpr hsilent, List.nil_append]
    rcases trace_report hreport with ⟨rfl, rfl⟩ | ⟨rfl, rfl⟩ <;> rfl
  · obtain ⟨rfl, hresult⟩ := hasked.of_done
    cases hresult
    rfl

end Batch
end NotebookTidy
