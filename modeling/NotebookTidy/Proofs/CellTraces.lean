import NotebookTidy.Formatter.Spacing
import NotebookTidy.Proofs.CellTasks
import NotebookTidy.Proofs.NotebookValues
import NotebookTidy.Proofs.TaskTraces

/-!
# Which texts a formatting puts into a notebook

The events of a formatting are those of the code cells, one cell after the other, each with the
question before it whether the run has been cancelled (`Reformats`).  It ends after the last of
them, or at one where the run has been cancelled or the formatter fails (`StopsAt`); the cells
before that one have been formatted then, and no others (`Passes`).

The notebook that comes out of a formatting that succeeds is the one that went in, with the texts
that the cells were formatted to as their sources (`Notebook.trace_format`); and what is written of
it differs from the document that was read in these sources only
(`Notebook.format_changes_only_sources`).
-/

namespace NotebookTidy

/-- **Code cells formatted one after the other**: with the notes before, the events, the texts they
were formatted to, and the notes afterwards. -/
inductive Reformats (mode : Mode) :
    List CodeCell → Rejections → List Event → List Text → Rejections → Prop where
  | nil (rejections : Rejections) : Reformats mode [] rejections [] [] rejections
  | cons {cell : CodeCell} {cells : List CodeCell} {before between after : Rejections}
    {es fs : List Event} {text : Text} {texts : List Text}
    (formatted : Task.Trace ((formatSource mode cell.source).start before) es
      (.done (.ok text, between)))
    (rest : Reformats mode cells between fs texts after) :
    Reformats mode (cell :: cells) before (.polled false :: (es ++ fs)) (text :: texts) after

theorem Reformats.length_texts {mode : Mode} {cells : List CodeCell} {before after : Rejections}
    {es : List Event} {texts : List Text} (h : Reformats mode cells before es texts after) :
    texts.length = cells.length := by
  induction h with
  | nil => rfl
  | cons formatted rest ih => rw [List.length_cons, List.length_cons, ih]

/-- A formatted cell is another cell exactly if its fragments are others. -/
theorem code_setSource_eq_iff {cell : CodeCell} {text : Text} :
    Cell.code (cell.setSource text) = Cell.code cell ↔
      (cell.setSource text).fragments = cell.fragments := by
  obtain ⟨before, shape, fragments, after⟩ := cell
  simp [CodeCell.setSource]

/-- One formatted cell more, and whether there has been a change so far. -/
theorem after_decide (cell : CodeCell) (text : Text) (formatted rest : List Cell)
    (rejections : Rejections) :
    Formatting.after cell text ⟨formatted, .ok (decide (formatted ≠ rest)), rejections⟩ =
      ⟨.code (cell.setSource text) :: formatted,
        .ok (decide (.code (cell.setSource text) :: formatted ≠ .code cell :: rest)),
        rejections⟩ := by
  simp only [Formatting.after, Except.map, ne_eq, List.cons.injEq, code_setSource_eq_iff]
  by_cases hfragments : (cell.setSource text).fragments = cell.fragments
  · simp [hfragments]
  · simp [hfragments]

/-- **What ends a formatting at a code cell**: the run has been cancelled, or the cell cannot be
formatted. -/
inductive StopsAt (mode : Mode) (cell : CodeCell) (notes : Rejections) :
    List Event → FormatterError → Prop where
  | cancelled : StopsAt mode cell notes [.polled true] .interrupted
  | failed {es : List Event} {error : FormatterError} {after : Rejections}
    (trace : Task.Trace ((formatSource mode cell.source).start notes) es
      (.done (.error error, after))) :
    StopsAt mode cell notes (.polled false :: es) error

/-- **What a formatting of cells has done**: it has formatted the code cells up to some place, each
to its text, and this place is the end, or the formatting stopped at the code cell there. -/
structure Passes (mode : Mode) (cells : List Cell) (before : Rejections) (after : Formatting)
    (formatted left : List CodeCell) (es fs : List Event) (texts : List Text) (notes : Rejections) :
    Prop where
  /-- The code cells that have been formatted, and those that have not. -/
  cut : cells.filterMap Cell.asCode? = formatted ++ left
  /-- The former have been, by the first events. -/
  reformats : Reformats mode formatted before es texts notes
  /-- Their sources are all that is different. -/
  sources : after.cells = Cell.setSources texts cells
  /-- The other events say why it is over. -/
  ends : (left = [] ∧ fs = [] ∧ after.result = .ok (decide (after.cells ≠ cells)) ∧
      after.rejections = notes) ∨
    ∃ cell rest error, left = cell :: rest ∧ after.result = .error error ∧
      StopsAt mode cell notes fs error

namespace Passes
variable {mode : Mode} {before : Rejections}

theorem nil (mode : Mode) (before : Rejections) :
    Passes mode [] before ⟨[], .ok false, before⟩ [] [] [] [] [] before :=
  ⟨rfl, .nil before, rfl, .inl ⟨rfl, rfl, rfl, rfl⟩⟩

/-- A formatting that stops at the first cell. -/
theorem stopped {cell : CodeCell} {fs : List Event} {error : FormatterError}
    (h : StopsAt mode cell before fs error) (rest : List Cell) (notes : Rejections) :
    Passes mode (.code cell :: rest) before ⟨.code cell :: rest, .error error, notes⟩
      [] (cell :: rest.filterMap Cell.asCode?) [] fs [] before :=
  ⟨rfl, .nil before, rfl, .inr ⟨cell, _, error, rfl, rfl, h⟩⟩

variable {cells : List Cell} {after : Formatting} {formatted left : List CodeCell}
  {es fs : List Event} {texts : List Text} {notes : Rejections}

/-- A cell of another kind is passed over. -/
theorem other (members : Members)
    (h : Passes mode cells before after formatted left es fs texts notes) :
    Passes mode (.other members :: cells) before
      { after with cells := .other members :: after.cells } formatted left es fs texts notes where
  cut := h.cut
  reformats := h.reformats
  sources := by rw [Cell.setSources_other, h.sources]
  ends := by simpa using h.ends

/-- A code cell that can be formatted is, before the others. -/
theorem code {cell : CodeCell} {between : Rejections} {cs : List Event} {text : Text}
    (hcell : Task.Trace ((formatSource mode cell.source).start before) cs
      (.done (.ok text, between)))
    (h : Passes mode cells between after formatted left es fs texts notes) :
    Passes mode (.code cell :: cells) before (.after cell text after) (cell :: formatted) left
      (.polled false :: (cs ++ es)) fs (text :: texts) notes where
  cut := congrArg (cell :: ·) h.cut
  reformats := .cons hcell h.reformats
  sources := congrArg (Cell.code (cell.setSource text) :: ·) h.sources
  ends := by
    obtain ⟨-, -, -, hends⟩ := h
    obtain ⟨formattedCells, result, rejections⟩ := after
    rcases hends with ⟨hleft, hfs, hresult, hnotes⟩ | ⟨stop, rest, error, hleft, hresult, hstop⟩
    · change result = _ at hresult
      rw [hresult, after_decide]
      exact .inl ⟨hleft, hfs, rfl, hnotes⟩
    · change result = _ at hresult
      rw [hresult]
      exact .inr ⟨stop, rest, error, hleft, rfl, hstop⟩

end Passes

/-- **The events of a formatting of cells say what it has done.** -/
theorem trace_formatCells {mode : Mode} {cells : List Cell} {rejections : Rejections}
    {es : List Event} {after : Formatting}
    (h : Task.Trace (formatCells mode cells rejections) es (.done after)) :
    ∃ formatted left fs gs texts notes, es = fs ++ gs ∧
      Passes mode cells rejections after formatted left fs gs texts notes := by
  induction cells generalizing rejections es after with
  | nil =>
    obtain ⟨rfl, hafter⟩ := h.of_done
    cases hafter
    exact ⟨[], [], [], [], [], rejections, rfl, .nil mode rejections⟩
  | cons cell rest ih =>
    cases cell with
    | other members =>
      rw [formatCells_other] at h
      obtain ⟨es, hs, after, rfl, hrest, hend⟩ := h.bind_ended
      obtain ⟨rfl, hlast⟩ := hend.of_done
      cases hlast
      obtain ⟨formatted, left, fs, gs, texts, notes, rfl, hpasses⟩ := ih hrest
      exact ⟨formatted, left, fs, gs, texts, notes, List.append_nil _, hpasses.other members⟩
    | code cell =>
      rw [formatCells_code] at h
      obtain ⟨cancelled, es, rfl, hasked⟩ := h.of_poll
      cases cancelled with
      | true =>
        obtain ⟨rfl, hafter⟩ := hasked.of_done
        cases hafter
        exact ⟨[], _, [], _, [], rejections, rfl, .stopped .cancelled rest rejections⟩
      | false =>
        obtain ⟨cs, es, ⟨result, between⟩, rfl, hcell, hafter⟩ := hasked.bind_ended
        cases result with
        | error error =>
          obtain ⟨rfl, hafter⟩ := hafter.of_done
          cases hafter
          rw [List.append_nil]
          exact ⟨[], _, [], _, [], rejections, rfl, .stopped (.failed hcell) rest between⟩
        | ok text =>
          obtain ⟨es, hs, last, rfl, hrest, hend⟩ := hafter.bind_ended
          obtain ⟨rfl, hlast⟩ := hend.of_done
          cases hlast
          obtain ⟨formatted, left, fs, gs, texts, notes, rfl, hpasses⟩ := ih hrest
          exact ⟨cell :: formatted, left, .polled false :: (cs ++ fs), gs, text :: texts, notes,
            by simp, hpasses.code hcell⟩

namespace Notebook

/-- **What a formatting of a notebook that succeeds has done**: its code cells have the texts as
sources that they were formatted to, and it reports a change exactly if it is another notebook
now. -/
theorem trace_format {mode : Mode} {n n' : Notebook} {es : List Event} {changed : Bool}
    {rejections : Rejections}
    (h : Task.Trace (n.format mode) es (.done (n', .ok (changed, rejections)))) :
    ∃ texts, Reformats mode n.codeCells .empty es texts rejections ∧
      n' = n.setSources texts ∧ changed = decide (n' ≠ n) := by
  rw [format_eq] at h
  obtain ⟨es, hs, after, rfl, htrace, hend⟩ := h.bind_ended
  obtain ⟨rfl, hafter⟩ := hend.of_done
  simp only [Task.done.injEq, Prod.mk.injEq] at hafter
  obtain ⟨rfl, hresult⟩ := hafter
  obtain ⟨formatted, left, fs, gs, texts, notes, rfl, hcode, hreformats, hcells, hends⟩ :=
    trace_formatCells htrace
  rcases hends with ⟨rfl, rfl, hchanged, rfl⟩ | ⟨cell, rest, error, -, herror, -⟩
  · simp only [hchanged, Except.map, Except.ok.injEq, Prod.mk.injEq] at hresult
    obtain ⟨rfl, rfl⟩ := hresult
    rw [List.append_nil] at hcode
    refine ⟨texts, ?_, ?_, ?_⟩
    · rw [List.append_nil, List.append_nil, codeCells, hcode]
      exact hreformats
    · rw [setSources, hcells]
    · obtain ⟨before, cells, after', layout⟩ := n
      simp
  · simp [herror, Except.map] at hresult

/-- **Only the sources of code cells change.**  A notebook has the value of the document that it
was read from; and when a formatting of it succeeds, whatever the formatter and the world answer,
its document has that value with the texts that the code cells were formatted to in place of their
sources, a list where there was a list and a text where there was a text. -/
theorem format_changes_only_sources {document : Text} {n : Notebook}
    (hread : read document = .ok n) :
    Json.read? (withoutMark document) = some n.toJson ∧
      ∀ (formatter : Formatter) (mode : Mode) (w w' : World) (n' : Notebook) (changed : Bool)
        (rejections : Rejections),
        Task.Steps formatter (n.format mode, w) (.done (n', .ok (changed, rejections)), w') →
          ∃ es texts, World.Follows formatter w es w' ∧
            Reformats mode n.codeCells .empty es texts rejections ∧
            Json.read? (withoutMark n'.write) = some (n.toJson.replaceSources texts) := by
  refine ⟨(of_read hread).1, fun formatter mode w w' n' changed rejections h => ?_⟩
  obtain ⟨es, htrace, hfollows⟩ := h.trace
  obtain ⟨texts, hreformats, rfl, -⟩ := trace_format htrace
  exact ⟨es, texts, hfollows, hreformats, read?_write_setSources hread texts⟩

/-- A document with a number and with a code cell whose source is a list. -/
def listed : Text :=
  "\x7b\"nbformat\":4E0,\"cells\":[\x7b\"cell_type\":\"code\",\"source\":[\"x=1\"]\x7d]\x7d".toList

/-- The notebook in it. -/
def listedNotebook : Notebook :=
  ⟨[("nbformat".toList, .number ⟨false, ['4'], [], some ⟨false, ['0']⟩⟩)],
    [.code ⟨[(kindKey, .string codeKind)], .lines, ["x=1".toList], []⟩], [], .compact⟩

/-- The spacing formatter changes the source of its cell and nothing else. -/
theorem sources_of_listed :
    read listed = .ok listedNotebook ∧
      ∃ es texts, World.Follows Spacing.formatter (.start ⟨[], []⟩) es
          ((listedNotebook.format .standard).run Spacing.formatter (.start ⟨[], []⟩)).2 ∧
        Reformats .standard listedNotebook.codeCells .empty es texts .empty ∧
        Json.read? (withoutMark (listedNotebook.setSources ["x = 1\n".toList]).write) =
          some (listedNotebook.toJson.replaceSources texts) := by
  have hread : read listed = .ok listedNotebook := rfl
  have hrun : ((listedNotebook.format .standard).run Spacing.formatter (.start ⟨[], []⟩)).1 =
      (listedNotebook.setSources ["x = 1\n".toList], .ok (true, .empty)) := rfl
  have hsteps := Task.steps_run Spacing.formatter (listedNotebook.format .standard)
    (.start ⟨[], []⟩)
  rw [hrun] at hsteps
  exact ⟨hread, (format_changes_only_sources hread).2 _ _ _ _ _ _ _ hsteps⟩

end Notebook
end NotebookTidy
