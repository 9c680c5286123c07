import NotebookTidy.Proofs.CellTasks
import NotebookTidy.Proofs.TaskTraces

/-!
# Which events a task can meet

Formatting code only asks the formatter; formatting and checking a notebook asks besides whether the
run has been cancelled; replacing a file only acts on files.  So whatever kind of event these are
not of, they avoid: `Task.Avoids` is the judgement, with one rule for each kind of node.  Its rules
close it under all that these programs are put together of.
-/

namespace NotebookTidy
namespace Task
variable {α β : Type} {kind : Event → Bool}

/-- **No way through the task, complete or not, meets an event of the kind.** -/
def Avoids (kind : Event → Bool) (t : Task α) : Prop :=
  ∀ es u, Trace t es u → ∀ e ∈ es, kind e = false

namespace Avoids

/-- A task avoids what its first event and all that can follow avoid. -/
theorem of_takes {t : Task α} (h : ∀ e s, Takes t e s → kind e = false ∧ Avoids kind s) :
    Avoids kind t := by
  intro es u htrace
  cases htrace with
  | refl => exact fun e he => absurd he List.not_mem_nil
  | cons first rest =>
    obtain ⟨hfirst, hrest⟩ := h _ _ first
    exact List.forall_mem_cons.mpr ⟨hfirst, hrest _ _ rest⟩

/-- What is avoided by a task is avoided by what is left of it after an event. -/
theorem takes {t s : Task α} {e : Event} (h : Avoids kind t) (htakes : Takes t e s) :
    kind e = false ∧ Avoids kind s :=
  ⟨h [e] s (.cons htakes (.refl s)) e List.mem_cons_self,
    fun _ u htrace f hf => h _ u (.cons htakes htrace) f (List.mem_cons_of_mem _ hf)⟩

theorem done (a : α) : Avoids kind (.done a) := of_takes nofun

theorem ask {call : Call} {next : Formatted → Task α}
    (hkind : ∀ answer, kind (.answered call answer) = false)
    (h : ∀ answer, Avoids kind (next answer)) : Avoids kind (.ask call next) := by
  refine of_takes fun e s htakes => ?_
  cases htakes
  exact ⟨hkind _, h _⟩

theorem poll {next : Bool → Task α} (hkind : ∀ cancelled, kind (.polled cancelled) = false)
    (h : ∀ cancelled, Avoids kind (next cancelled)) : Avoids kind (.poll next) := by
  refine of_takes fun e s htakes => ?_
  cases htakes
  exact ⟨hkind _, h _⟩

theorem disk {action : DiskAction} {next : Except IoFault action.Answer → Task α}
    (hkind : ∀ answer, kind (.changed action answer) = false)
    (h : ∀ answer, Avoids kind (next answer)) : Avoids kind (.disk action next) := by
  refine of_takes fun e s htakes => ?_
  cases htakes
  exact ⟨hkind _, h _⟩

theorem announce {outcome : Outcome} {next : Task α} (hkind : kind (.announced outcome) = false)
    (h : Avoids kind next) : Avoids kind (.announce outcome next) := by
  refine of_takes fun e s htakes => ?_
  cases htakes
  exact ⟨hkind, h⟩

theorem bind {t : Task α} {f : α → Task β} (ht : Avoids kind t) (hf : ∀ a, Avoids kind (f a)) :
    Avoids kind (t.bind f) := by
  intro es u htrace e he
  rcases htrace.bind_cut with ⟨s, hs, -⟩ | ⟨fs, gs, a, rfl, hfirst, hsecond⟩
  · exact ht es s hs e he
  · rcases List.mem_append.mp he with he | he
    · exact ht fs _ hfirst e he
    · exact hf a gs u hsecond e he

end Avoids
end Task

/-! ## Formatting code only asks the formatter -/

namespace Noting
variable {α β : Type} {kind : Event → Bool}

/-- A task with notes that avoids events of a kind. -/
def Avoids (kind : Event → Bool) (x : Noting α) : Prop :=
  ∀ rejections, (x.start rejections).Avoids kind

theorem Avoids.pure (a : α) : Avoids kind (pure a : Noting α) := fun _ => .done _

theorem Avoids.bind {x : Noting α} {f : α → Noting β} (hx : x.Avoids kind)
    (hf : ∀ a, (f a).Avoids kind) : (x >>= f).Avoids kind := by
  intro rejections
  rw [start_bind]
  refine .bind (hx rejections) ?_
  rintro ⟨error | a, rejections⟩
  · exact .done _
  · exact hf a rejections

end Noting

section
variable {kind : Event → Bool} (hask : ∀ call answer, kind (.answered call answer) = false)
include hask

theorem Noting.avoids_send (mode : Mode) (code : Text)
    {instead : Option Text → Option (Noting Text)}
    (h : ∀ line other, instead line = some other → other.Avoids kind) :
    (send mode code instead).Avoids kind := by
  intro rejections
  rw [start_send]
  refine .ask (hask _) fun answer => ?_
  rcases answer with error | formatted
  · cases error with
    | cannotParse message line =>
      cases hinstead : instead line with
      | none =>
        simp only [hinstead]
        exact .done _
      | some other =>
        simp only [hinstead]
        exact h line other hinstead rejections
    | _ => exact .done _
  · exact .done _

theorem Noting.closed_avoids (mode : Mode) : Closed mode fun x => x.Avoids kind where
  pure := .pure
  bind := .bind
  send code _ := avoids_send hask mode code

/-- **Formatting a source** only asks the formatter. -/
theorem avoids_formatSource (mode : Mode) (text : Text) : (formatSource mode text).Avoids kind :=
  (Noting.closed_avoids hask mode).formatSource text

/-! ## Formatting and checking a notebook also asks for cancellation -/

variable (hpoll : ∀ cancelled, kind (.polled cancelled) = false)
include hpoll

theorem Task.closed_avoids : Closed fun _ t => t.Avoids kind := by
  constructor
  case done => exact fun _ => .done _
  case poll =>
    intro _ _ _ next a hend _ h
    refine .poll hpoll fun cancelled => ?_
    cases cancelled
    · exact h
    · exact hend ▸ .done a
  case bind =>
    intro _ _ _ _ result _ t f ht hok herror
    refine .bind ht fun a => ?_
    rcases hresult : result a with error | b
    · obtain ⟨c, hc, -⟩ := herror a error hresult
      exact hc ▸ .done c
    · exact hok a b hresult
  case source => exact fun mode text rejections => avoids_formatSource hask mode text rejections

theorem avoids_formatCells (mode : Mode) (cells : List Cell) (rejections : Rejections) :
    (formatCells mode cells rejections).Avoids kind :=
  (Task.closed_avoids hask hpoll).formatCells mode cells rejections

theorem avoids_checkCells (mode : Mode) (cells : List Cell) (rejections : Rejections) :
    (checkCells mode cells rejections).Avoids kind :=
  (Task.closed_avoids hask hpoll).checkCells mode cells rejections

theorem Notebook.avoids_format (mode : Mode) (n : Notebook) : (n.format mode).Avoids kind :=
  .bind (avoids_formatCells hask hpoll mode _ _) fun _ => .done _

theorem Notebook.avoids_check (mode : Mode) (n : Notebook) : (n.check mode).Avoids kind :=
  .bind (avoids_checkCells hask hpoll mode _ _) fun _ => .done _

theorem StoredNotebook.avoids_check (mode : Mode) (file : StoredNotebook) :
    (file.check mode).Avoids kind := by
  rw [check_eq]
  refine .bind (file.notebook.avoids_check hask hpoll mode) ?_
  rintro (error | ⟨formatted, rejections⟩)
  · exact .done _
  · cases formatted <;> exact .done _

/-! ## Processing a file changes files as well -/

variable (hchange : ∀ action answer, kind (.changed action answer) = false)
include hchange

omit hask hpoll in
theorem avoids_replaceFile (path : Text) (content : Octets) :
    (Task.replaceFile path content).Avoids kind := by
  have hclosed : Task.ClosedOnDisk fun t => t.Avoids kind :=
    ⟨.done, fun action _ h => .disk (hchange action) h, .bind⟩
  exact hclosed.replaceFile path content

omit hask in
theorem StoredNotebook.avoids_save (path : Text) (notebook : Notebook) (rejections : Rejections) :
    (save path notebook rejections).Avoids kind := by
  rw [save_eq]
  refine .poll hpoll fun cancelled => ?_
  cases cancelled
  · refine .bind (avoids_replaceFile hchange _ _) ?_
    rintro (fault | ⟨⟩) <;> exact .done _
  · exact .done _

/-- **Processing a file** announces nothing. -/
theorem StoredNotebook.avoids_process (action : Action) (mode : Mode) (file : StoredNotebook) :
    (file.process action mode).Avoids kind := by
  cases action with
  | check => exact file.avoids_check hask hpoll mode
  | format =>
    change (file.format mode).Avoids kind
    rw [format_eq]
    refine .bind (file.notebook.avoids_format hask hpoll mode) ?_
    rintro ⟨notebook, error | ⟨changed, rejections⟩⟩
    · exact .done _
    · cases changed
      · exact .done _
      · exact avoids_save hpoll hchange _ _ _

end
end NotebookTidy
