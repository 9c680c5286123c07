import NotebookTidy.Batch.Basic
import NotebookTidy.Proofs.CellTasks
import NotebookTidy.Proofs.TaskTraces

/-!
# What keeps a file from being processed

Two kinds of events end the work on a file: the formatter fails for another reason than the code,
or the task is told that the run has been cancelled.  These are its **stops** (`Event.stop?`), and
the second kind counts as an interrupted formatter.

A task meets one stop at most, since it ends there, and what it met can be read off its result.
`Task.Meets` is the form in which this is proved: a judgement on tasks with one rule for each node
and one for composition, which close it under all that formatting is put together of.  From there the
proof goes up to the task of a whole file (`Batch.meets_task`).
-/

namespace NotebookTidy

/-- The failure that ends the work on a file, if the event is one. -/
def Event.stop? : Event → Option FormatterError
  | .answered _ (.error error) => if error.blamesCode then none else some error
  | .polled true => some .interrupted
  | _ => none

/-- The stops among events. -/
def stops (es : List Event) : List FormatterError := es.filterMap Event.stop?

@[simp] theorem stops_nil : stops [] = [] := rfl

theorem stops_cons (e : Event) (es : List Event) :
    stops (e :: es) = e.stop?.toList ++ stops es := by
  cases h : e.stop? <;> simp [stops, h]

theorem stops_append (es fs : List Event) : stops (es ++ fs) = stops es ++ stops fs :=
  List.filterMap_append

namespace Task
variable {α β : Type}

/-- **A judgement on all ways through a task**: after the stops that were met before, those met by
its end fit its result. -/
def Meets (before : List FormatterError) (t : Task α)
    (fits : α → List FormatterError → Prop) : Prop :=
  ∀ es a, Trace t es (.done a) → fits a (before ++ stops es)

namespace Meets
variable {before : List FormatterError} {fits : α → List FormatterError → Prop}

theorem done {a : α} (h : fits a before) : Meets before (.done a) fits := by
  intro es b htrace
  obtain ⟨rfl, hb⟩ := htrace.of_done
  cases hb
  rwa [stops_nil, List.append_nil]

theorem ask {call : Call} {next : Formatted → Task α}
    (h : ∀ answer,
      Meets (before ++ (Event.answered call answer).stop?.toList) (next answer) fits) :
    Meets before (.ask call next) fits := by
  intro es a htrace
  obtain ⟨answer, fs, rfl, hrest⟩ := htrace.of_ask
  have := h answer fs a hrest
  rwa [List.append_assoc, ← stops_cons] at this

theorem poll {next : Bool → Task α}
    (h : ∀ cancelled,
      Meets (before ++ (Event.polled cancelled).stop?.toList) (next cancelled) fits) :
    Meets before (.poll next) fits := by
  intro es a htrace
  obtain ⟨cancelled, fs, rfl, hrest⟩ := htrace.of_poll
  have := h cancelled fs a hrest
  rwa [List.append_assoc, ← stops_cons] at this

theorem disk {action : DiskAction} {next : Except IoFault action.Answer → Task α}
    (h : ∀ answer, Meets before (next answer) fits) : Meets before (.disk action next) fits := by
  intro es a htrace
  obtain ⟨answer, fs, rfl, hrest⟩ := htrace.of_disk
  exact h answer fs a hrest

theorem announce {outcome : Outcome} {next : Task α} (h : Meets before next fits) :
    Meets before (.announce outcome next) fits := by
  intro es a htrace
  obtain ⟨fs, rfl, hrest⟩ := htrace.of_announce
  exact h fs a hrest

theorem bind {t : Task β} {f : β → Task α} {fits' : β → List FormatterError → Prop}
    (ht : Meets before t fits') (hf : ∀ b met, fits' b met → Meets met (f b) fits) :
    Meets before (t.bind f) fits := by
  intro es a htrace
  obtain ⟨fs, gs, b, rfl, hfirst, hsecond⟩ := htrace.bind_ended
  have := hf b _ (ht fs b hfirst) gs a hsecond
  rwa [List.append_assoc, ← stops_append] at this

/-- A judgement on what comes second may be true whatever comes of the first. -/
theorem bind_of_forall {t : Task β} {f : β → Task α} (hf : ∀ b met, Meets met (f b) fits) :
    Meets before (t.bind f) fits := by
  have ht : Meets before t fun _ _ => True := fun _ _ _ => trivial
  exact ht.bind fun b met _ => hf b met

end Meets

/-- Replacing a file stops nothing. -/
theorem meets_replaceFile (path : Text) (content : Octets) (before : List FormatterError) :
    Meets before (replaceFile path content) fun _ met => met = before := by
  have hclosed : ClosedOnDisk fun t => Meets before t fun _ met => met = before := by
    refine ⟨fun _ => .done rfl, fun _ _ h => .disk h, fun ht hf => .bind ht ?_⟩
    rintro a met rfl
    exact hf a
  exact hclosed.replaceFile path content

end Task

/-! ## Code and cells -/

/-- The failure in a result. -/
def failures {ε α : Type} : Except ε α → List ε
  | .error error => [error]
  | .ok _ => []

namespace Noting
variable {α β : Type}

/-- A task with notes ends with the stop that it met, if it met one. -/
def TellsStop (x : Noting α) : Prop :=
  ∀ rejections, Task.Meets [] (x.start rejections) fun result met => met = failures result.1

theorem TellsStop.pure (a : α) : TellsStop (pure a : Noting α) := fun _ => .done rfl

theorem TellsStop.bind {x : Noting α} {f : α → Noting β} (hx : x.TellsStop)
    (hf : ∀ a, (f a).TellsStop) : (x >>= f).TellsStop := by
  intro rejections
  rw [start_bind]
  refine .bind (hx rejections) ?_
  rintro ⟨error | a, rejections⟩ met rfl
  · exact .done rfl
  · exact hf a rejections

theorem tellsStop_send (mode : Mode) (code : Text) {instead : Option Text → Option (Noting Text)}
    (h : ∀ line other, instead line = some other → other.TellsStop) :
    (send mode code instead).TellsStop := by
  intro rejections
  rw [start_send]
  refine .ask fun answer => ?_
  rcases answer with error | formatted
  · cases error with
    | cannotParse message line =>
      cases hinstead : instead line with
      | none =>
        simp only [hinstead]
        exact .done rfl
      | some other =>
        simp only [hinstead]
        exact h line other hinstead rejections
    | _ => exact .done rfl
  · exact .done rfl

theorem closed_tellsStop (mode : Mode) : Closed mode fun x => x.TellsStop where
  pure := .pure
  bind := .bind
  send code _ := tellsStop_send mode code

end Noting

/-- **Tasks end with the stop that they met**: those that formatting is put together of, and so
formatting. -/
theorem Task.closed_meets :
    Closed fun result t => Meets [] t fun a met => met = failures (result a) := by
  constructor
  case done =>
    intro _ _ result a b h
    refine .done ?_
    rw [h]
    rfl
  case poll =>
    intro _ _ result next a hend hresult h
    refine .poll fun cancelled => ?_
    cases cancelled
    · exact h
    · rw [hend]
      refine .done ?_
      rw [hresult]
      rfl
  case bind =>
    intro _ _ _ _ result result' t f ht hok herror
    refine .bind ht ?_
    rintro a met rfl
    rcases hresult : result a with error | b
    · -- the second task does nothing, and its failure is the first one's
      obtain ⟨c, hc, hfailed⟩ := herror a error hresult
      rw [hc]
      refine .done ?_
      rw [hfailed]
      rfl
    · exact hok a b hresult
  case source =>
    exact fun mode text rejections => (Noting.closed_tellsStop mode).formatSource text rejections

/-! ## Files -/

/-- **An outcome of the file at a path, and the stop that it tells of**: there is none behind a
finding or a file that could not be written. -/
inductive Outcome.Tells (path : Text) : Outcome → List FormatterError → Prop where
  | finding (verdict : Verdict) (rejections : Rejections) :
    Tells path (.ok ⟨path, verdict, rejections⟩) []
  | unwritten (fault : IoFault) : Tells path (.error (.write path fault)) []
  | stopped (error : FormatterError) :
    Tells path (.error (StoredNotebook.failure path error)) [error]

namespace StoredNotebook

theorem meets_save (path : Text) (notebook : Notebook) (rejections : Rejections) :
    Task.Meets [] (save path notebook rejections) (Outcome.Tells path) := by
  rw [save_eq]
  refine .poll fun cancelled => ?_
  cases cancelled
  · refine .bind (Task.meets_replaceFile path _ []) ?_
    rintro (fault | ⟨⟩) met rfl
    · exact .done (.unwritten fault)
    · exact .done (.finding _ _)
  · exact .done (.stopped .interrupted)

theorem meets_format (mode : Mode) (file : StoredNotebook) :
    Task.Meets [] (file.format mode) (Outcome.Tells file.path) := by
  rw [format_eq, Notebook.format_eq, Task.bind_assoc]
  refine .bind (Task.closed_meets.formatCells mode _ _) ?_
  rintro ⟨cells, error | changed, rejections⟩ met rfl
  · exact .done (.stopped error)
  · cases changed
    · exact .done (.finding _ _)
    · exact meets_save _ _ _

theorem meets_check (mode : Mode) (file : StoredNotebook) :
    Task.Meets [] (file.check mode) (Outcome.Tells file.path) := by
  rw [check_eq, Notebook.check_eq, Task.bind_assoc]
  refine .bind (Task.closed_meets.checkCells mode _ _) ?_
  rintro ⟨error | formatted, rejections⟩ met rfl
  · exact .done (.stopped error)
  · cases formatted <;> exact .done (.finding _ _)

end StoredNotebook

namespace Batch

/-- What a file's task ends with, and the stop that it tells of: a task without an outcome met an
interruption. -/
inductive Tells (path : Text) : Option Outcome → List FormatterError → Prop where
  | dropped : Tells path none [.interrupted]
  | finding (verdict : Verdict) (rejections : Rejections) :
    Tells path (some (.ok ⟨path, verdict, rejections⟩)) []
  | unwritten (fault : IoFault) : Tells path (some (.error (.write path fault))) []
  | failed (error : FormatterError) (h : error ≠ .interrupted) :
    Tells path (some (.error (.formatter path error))) [error]

theorem task_eq (plan : BatchPlan) (file : StoredNotebook) :
    task plan file = .poll fun
      | true => .done none
      | false => (file.process plan.action plan.mode).bind report := by
  change Task.poll _ = _
  refine congrArg _ (funext fun cancelled => ?_)
  cases cancelled
  · change Task.bind (file.process plan.action plan.mode) _ = _
    refine congrArg _ (funext fun outcome => ?_)
    rcases outcome with error | finding
    · cases error <;> rfl
    · rfl
  · rfl

/-- **The stops of a file's task are told by its result.** -/
theorem meets_task (plan : BatchPlan) (file : StoredNotebook) :
    Task.Meets [] (task plan file) (Tells file.path) := by
  have hprocess : Task.Meets [] (file.process plan.action plan.mode)
      (Outcome.Tells file.path) := by
    unfold StoredNotebook.process
    cases plan.action
    · exact file.meets_format plan.mode
    · exact file.meets_check plan.mode
  rw [task_eq]
  refine .poll fun cancelled => ?_
  cases cancelled
  · refine .bind hprocess ?_
    intro outcome met htells
    cases htells with
    | finding verdict rejections => exact .announce (.done (.finding verdict rejections))
    | unwritten fault => exact .announce (.done (.unwritten fault))
    | stopped error =>
      -- an interrupted formatter looks to the task like a cancelled run
      by_cases h : error = .interrupted
      · subst h
        exact .done .dropped
      · have hfailure : StoredNotebook.failure file.path error = .formatter file.path error := by
          cases error <;> first | rfl | exact absurd rfl h
        rw [hfailure]
        exact .announce (.done (.failed error h))
  · exact .done .dropped

end Batch
end NotebookTidy
