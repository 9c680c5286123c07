import NotebookTidy.Notebook.File

/-!
# Formatting as a tree

Formatting and checking are written as programs that note down rejected code and may fail.  Here is
what tree each of them is: which node comes first, and which task follows each answer.  The proofs
about traces start from these equations and never open the programs themselves.

Much that is said of these programs holds of all that is put together in the same way.  What it takes
for that is said once: of predicates on tasks with notes, for sources (`Noting.Closed`), of
judgements on tasks that can fail, for cells (`Task.Closed`), and of predicates on tasks, for the
replacement of a file (`Task.ClosedOnDisk`).  The programs are gone through once for each, and a
predicate that is closed holds of them all.
-/

namespace NotebookTidy

/-! ## Tasks with notes -/

namespace Noting
variable {α β : Type}

theorem start_request_bind (call : Call) (f : Formatted → Noting β) (rejections : Rejections) :
    (request call >>= f).start rejections = .ask call fun answer => (f answer).start rejections :=
  rfl

/-- What follows a task with notes goes on with its result and its notes, or not at all. -/
theorem start_bind (x : Noting α) (f : α → Noting β) (rejections : Rejections) :
    (x >>= f).start rejections = (x.start rejections).bind fun
      | (.ok a, rejections) => (f a).start rejections
      | (.error error, rejections) => .done (.error error, rejections) := by
  change (x.start rejections).bind _ = _
  refine congrArg _ (funext fun ⟨result, rejections⟩ => ?_)
  cases result <;> rfl

end Noting

/-! ## Code -/

namespace Noting

theorem start_send (mode : Mode) (code : Text) (instead : Option Text → Option (Noting Text))
    (rejections : Rejections) :
    (send mode code instead).start rejections = .ask ⟨mode, code⟩ fun
      | .ok formatted => .done (.ok formatted, rejections)
      | .error (.cannotParse message line) =>
        match instead line with
        | some other => other.start rejections
        | none => .done (.ok code, rejections.note code message)
      | .error error => .done (.error error, rejections) := by
  rw [send, start_request_bind]
  refine congrArg _ (funext fun answer => ?_)
  rcases answer with error | formatted
  · cases error with
    | cannotParse message line => cases h : instead line <;> simp only [h] <;> rfl
    | _ => rfl
  · rfl

end Noting

theorem start_formatSegment {segment : Text} (h : segment ≠ []) (mode : Mode)
    (rejections : Rejections) :
    (formatSegment mode segment).start rejections = .ask ⟨mode, segment⟩ fun
      | .ok formatted => .done (.ok formatted, rejections)
      | .error (.cannotParse message _) => .done (.ok segment, rejections.note segment message)
      | .error error => .done (.error error, rejections) := by
  rw [formatSegment, if_neg h, Noting.start_send]

theorem start_formatSource (mode : Mode) (text : Text) (rejections : Rejections) :
    (formatSource mode text).start rejections = .ask ⟨mode, text⟩ fun
      | .ok formatted => .done (.ok formatted, rejections)
      | .error (.cannotParse message line) =>
        if cutsUp text line then (formatSegments mode text).start rejections
        else .done (.ok text, rejections.note text message)
      | .error error => .done (.error error, rejections) := by
  rw [formatSource, Noting.start_send]
  refine congrArg _ (funext fun answer => ?_)
  rcases answer with error | formatted
  · cases error with
    | cannotParse message line => by_cases h : cutsUp text line <;> simp only [h] <;> rfl
    | _ => rfl
  · rfl

/-- **A predicate on tasks with notes that is closed** under all that formatting a source is put
together of. -/
structure Noting.Closed (mode : Mode) (P : {α : Type} → Noting α → Prop) : Prop where
  /-- It holds of a result. -/
  pure {α : Type} (a : α) : P (Pure.pure a)
  /-- It holds of one task after the other if it holds of both. -/
  bind {α β : Type} {x : Noting α} {f : α → Noting β} (hx : P x) (hf : ∀ a, P (f a)) : P (x >>= f)
  /-- It holds of sending code if it holds of all that is done instead. -/
  send (code : Text) {instead : Option Text → Option (Noting Text)}
    (h : ∀ line other, instead line = some other → P other) : P (.send mode code instead)

namespace Noting.Closed
variable {mode : Mode} {P : {α : Type} → Noting α → Prop} (h : Closed mode P)
include h

theorem formatSegment (segment : Text) : P (formatSegment mode segment) := by
  by_cases hnil : segment = []
  · subst hnil
    exact h.pure []
  · rw [NotebookTidy.formatSegment, if_neg hnil]
    exact h.send segment fun _ _ hnone => absurd hnone.symm (Option.some_ne_none _)

theorem mapTailM (tail : List (Text × Text)) :
    P (Segments.mapTailM (NotebookTidy.formatSegment mode) tail) := by
  induction tail with
  | nil => exact h.pure []
  | cons entry rest ih => exact h.bind (h.formatSegment _) fun _ => h.bind ih fun _ => h.pure _

theorem formatSegments (text : Text) : P (formatSegments mode text) := by
  refine h.bind ?_ fun segments => h.pure segments.join
  exact h.bind (h.formatSegment _) fun _ => h.bind (h.mapTailM _) fun _ => h.pure _

/-- **What is closed holds of formatting a source.** -/
theorem formatSource (text : Text) : P (formatSource mode text) := by
  refine h.send text fun line other hother => ?_
  split at hother
  · cases hother
    exact h.formatSegments text
  · cases hother

end Noting.Closed

/-! ## Cells -/

theorem formatCells_other (mode : Mode) (members : Members) (rest : List Cell)
    (rejections : Rejections) :
    formatCells mode (.other members :: rest) rejections =
      (formatCells mode rest rejections).bind fun after =>
        .done { after with cells := .other members :: after.cells } := rfl

theorem formatCells_code (mode : Mode) (cell : CodeCell) (rest : List Cell)
    (rejections : Rejections) :
    formatCells mode (.code cell :: rest) rejections = .poll fun
      | true => .done ⟨.code cell :: rest, .error .interrupted, rejections⟩
      | false => ((formatSource mode cell.source).start rejections).bind fun
        | (.error error, rejections) => .done ⟨.code cell :: rest, .error error, rejections⟩
        | (.ok text, rejections) => (formatCells mode rest rejections).bind fun after =>
          .done (.after cell text after) := by
  change Task.poll _ = _
  refine congrArg _ (funext fun cancelled => ?_)
  cases cancelled
  · change Task.bind ((formatSource mode cell.source).start rejections) _ = _
    refine congrArg _ (funext fun ⟨result, rejections⟩ => ?_)
    cases result <;> rfl
  · rfl

theorem checkCells_code (mode : Mode) (cell : CodeCell) (rest : List Cell)
    (rejections : Rejections) :
    checkCells mode (.code cell :: rest) rejections = .poll fun
      | true => .done (.error .interrupted, rejections)
      | false => ((formatSource mode cell.source).start rejections).bind fun
        | (.error error, rejections) => .done (.error error, rejections)
        | (.ok text, rejections) =>
          if Fragment.split text = cell.fragments then checkCells mode rest rejections
          else .done (.ok false, rejections) := by
  change Task.poll _ = _
  refine congrArg _ (funext fun cancelled => ?_)
  cases cancelled
  · change Task.bind ((formatSource mode cell.source).start rejections) _ = _
    refine congrArg _ (funext fun ⟨result, rejections⟩ => ?_)
    cases result <;> rfl
  · rfl

/-- **A judgement on tasks that can fail, closed** under all that formatting and checking cells is
put together of.  It knows where the failure stands in what a task ends with; nothing follows a
failure, and a cancelled run is one. -/
structure Task.Closed
    (P : {α β : Type} → (α → Except FormatterError β) → Task α → Prop) : Prop where
  /-- It holds of an end without a failure. -/
  done {α β : Type} {result : α → Except FormatterError β} {a : α} {b : β} (h : result a = .ok b) :
    P result (.done a)
  /-- It holds of asking for cancellation if it holds of what is done in a run that goes on. -/
  poll {α β : Type} {result : α → Except FormatterError β} {next : Bool → Task α} {a : α}
    (hend : next true = .done a) (hresult : result a = .error .interrupted)
    (h : P result (next false)) : P result (.poll next)
  /-- It holds of one task after the other if it holds of both and the second does nothing after a
  failure. -/
  bind {α β γ δ : Type} {result : α → Except FormatterError β}
    {result' : γ → Except FormatterError δ} {t : Task α} {f : α → Task γ} (ht : P result t)
    (hok : ∀ a b, result a = .ok b → P result' (f a))
    (herror : ∀ a error, result a = .error error →
      ∃ c, f a = .done c ∧ result' c = .error error) : P result' (t.bind f)
  /-- It holds of formatting a source. -/
  source (mode : Mode) (text : Text) (rejections : Rejections) :
    P Prod.fst ((formatSource mode text).start rejections)

namespace Task.Closed
variable {P : {α β : Type} → (α → Except FormatterError β) → Task α → Prop} (h : Closed P)
include h

/-- **What is closed holds of formatting cells.** -/
theorem formatCells (mode : Mode) (cells : List Cell) (rejections : Rejections) :
    P Formatting.result (formatCells mode cells rejections) := by
  induction cells generalizing rejections with
  | nil => exact h.done rfl
  | cons cell rest ih =>
    cases cell with
    | other members =>
      rw [formatCells_other]
      exact h.bind (ih rejections) (fun _ _ hok => h.done hok) fun _ _ herror => ⟨_, rfl, herror⟩
    | code cell =>
      rw [formatCells_code]
      refine h.poll rfl rfl (h.bind (h.source mode _ rejections) ?_ ?_)
      · rintro ⟨result, rejections⟩ text rfl
        refine h.bind (ih rejections) (fun after _ hok => ?_) fun after _ herror => ?_
        · exact h.done (congrArg (Except.map _) hok)
        · exact ⟨_, rfl, congrArg (Except.map _) herror⟩
      · rintro ⟨result, rejections⟩ error rfl
        exact ⟨_, rfl, rfl⟩

/-- **What is closed holds of checking cells.** -/
theorem checkCells (mode : Mode) (cells : List Cell) (rejections : Rejections) :
    P Prod.fst (checkCells mode cells rejections) := by
  induction cells generalizing rejections with
  | nil => exact h.done rfl
  | cons cell rest ih =>
    cases cell with
    | other members => exact ih rejections
    | code cell =>
      rw [checkCells_code]
      refine h.poll rfl rfl (h.bind (h.source mode _ rejections) ?_ ?_)
      · rintro ⟨result, rejections⟩ text rfl
        by_cases hsame : Fragment.split text = cell.fragments
        · simp only [hsame, if_true]
          exact ih rejections
        · simp only [hsame, if_false]
          exact h.done rfl
      · rintro ⟨result, rejections⟩ error rfl
        exact ⟨_, rfl, rfl⟩

end Task.Closed

/-! ## Notebooks and files -/

namespace Task

theorem adopt_eq (path : Text) (temporary : Location) :
    adopt path temporary = .disk (.lookUp path) fun
      | .ok bits => changeAll [.setBits temporary bits, .rename temporary path]
      | .error _ => changeAll [.rename temporary path] := by
  change Task.disk _ _ = _
  refine congrArg _ (funext fun answer => ?_)
  cases answer <;> rfl

theorem install_eq (path : Text) (content : Octets) (temporary : Location) :
    install path content temporary =
      (changeAll [.write temporary content, .sync temporary]).bind fun
        | .error fault => .done (.error fault)
        | .ok () => adopt path temporary := by
  change Task.bind _ _ = _
  refine congrArg _ (funext fun result => ?_)
  cases result <;> rfl

theorem replaceFile_eq (path : Text) (content : Octets) :
    replaceFile path content = .disk (.createTemporary (Path.directory path)) fun
      | .error fault => .done (.error fault)
      | .ok temporary => (install path content temporary).bind fun
        | .ok () => .done (.ok ())
        | .error fault => .disk (.remove temporary) fun _ => .done (.error fault) := by
  change Task.disk _ _ = _
  refine congrArg _ (funext fun answer => ?_)
  rcases answer with fault | temporary
  · rfl
  · change Task.bind (install path content temporary) _ = _
    refine congrArg _ (funext fun result => ?_)
    cases result <;> rfl

/-- **A predicate on tasks that is closed** under all that replacing a file is put together of. -/
structure ClosedOnDisk (P : {α : Type} → Task α → Prop) : Prop where
  /-- It holds of a result. -/
  done {α : Type} (a : α) : P (.done a)
  /-- It holds of an action on files if it holds of what is done after each answer. -/
  disk {α : Type} (action : DiskAction) {next : Except IoFault action.Answer → Task α}
    (h : ∀ answer, P (next answer)) : P (.disk action next)
  /-- It holds of one task after the other if it holds of both. -/
  bind {α β : Type} {t : Task α} {f : α → Task β} (ht : P t) (hf : ∀ a, P (f a)) : P (t.bind f)

namespace ClosedOnDisk
variable {P : {α : Type} → Task α → Prop} (h : ClosedOnDisk P)
include h

theorem changeAll (actions : List DiskAction) : P (changeAll actions) := by
  induction actions with
  | nil => exact h.done _
  | cons action rest ih =>
    refine h.disk action fun answer => ?_
    rcases answer with fault | answer
    · exact h.done _
    · exact ih

theorem install (path : Text) (content : Octets) (temporary : Location) :
    P (install path content temporary) := by
  rw [install_eq]
  refine h.bind (h.changeAll _) ?_
  rintro (fault | ⟨⟩)
  · exact h.done _
  · rw [adopt_eq]
    refine h.disk _ fun answer => ?_
    cases answer <;> exact h.changeAll _

/-- **What is closed holds of replacing a file.** -/
theorem replaceFile (path : Text) (content : Octets) : P (replaceFile path content) := by
  rw [replaceFile_eq]
  refine h.disk _ fun answer => ?_
  rcases answer with fault | temporary
  · exact h.done _
  · refine h.bind (h.install path content temporary) ?_
    rintro (fault | ⟨⟩)
    · exact h.disk _ fun _ => h.done _
    · exact h.done _

end ClosedOnDisk
end Task

theorem Notebook.format_eq (mode : Mode) (n : Notebook) :
    n.format mode = (formatCells mode n.cells .empty).bind fun after =>
      .done ({ n with cells := after.cells }, after.result.map (·, after.rejections)) := rfl

theorem Notebook.check_eq (mode : Mode) (n : Notebook) :
    n.check mode = (checkCells mode n.cells .empty).bind fun (result, rejections) =>
      .done (result.map (·, rejections)) := rfl

namespace StoredNotebook

theorem save_eq (path : Text) (notebook : Notebook) (rejections : Rejections) :
    save path notebook rejections = .poll fun
      | true => .done (.error .cancelled)
      | false => (Task.replaceFile path (Utf8.encode notebook.write)).bind fun
        | .error fault => .done (.error (.write path fault))
        | .ok () => .done (.ok ⟨path, .reformatted, rejections⟩) := by
  change Task.poll _ = _
  refine congrArg _ (funext fun cancelled => ?_)
  cases cancelled
  · change Task.bind (Task.replaceFile _ _) _ = _
    refine congrArg _ (funext fun answer => ?_)
    cases answer <;> rfl
  · rfl

theorem format_eq (mode : Mode) (file : StoredNotebook) :
    file.format mode = (file.notebook.format mode).bind fun
      | (_, .error error) => .done (.error (failure file.path error))
      | (_, .ok (false, rejections)) => .done (.ok ⟨file.path, .unchanged, rejections⟩)
      | (notebook, .ok (true, rejections)) => save file.path notebook rejections := by
  change (file.notebook.format mode).bind _ = _
  refine congrArg _ (funext fun ⟨notebook, result⟩ => ?_)
  rcases result with error | ⟨changed, rejections⟩
  · rfl
  · cases changed <;> rfl

theorem check_eq (mode : Mode) (file : StoredNotebook) :
    file.check mode = (file.notebook.check mode).bind fun
      | .error error => .done (.error (failure file.path error))
      | .ok (true, rejections) => .done (.ok ⟨file.path, .unchanged, rejections⟩)
      | .ok (false, rejections) => .done (.ok ⟨file.path, .wouldReformat, rejections⟩) := by
  change (file.notebook.check mode).bind _ = _
  refine congrArg _ (funext fun result => ?_)
  rcases result with error | ⟨formatted, rejections⟩
  · rfl
  · cases formatted <;> rfl

end StoredNotebook
end NotebookTidy
