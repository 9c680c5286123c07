import NotebookTidy.Formatter.Spacing
import NotebookTidy.Proofs.CalmNotebooks

/-!
# What formatting sees of a notebook

A formatting reads the sources of the code cells and nothing else.  With cells known by their
sources only, a formatting of cells is one of texts: the same task, node by node, whatever stands
around the sources, however they are cut up, and whichever cells stand between them
(`formatCells_seen`).  The formatting of texts is written without cells, so there is nothing else
that it could depend on.

Two notebooks with the same sources are therefore formatted in lockstep, by every formatter: it is
asked the same, cancels at the same place, and what it made of one notebook's sources it has made of
the other's (`Notebook.format_sees_sources`).  Whether a cell has changed is the one thing that may
be told differently, since fragments are compared and not sources.
-/

namespace NotebookTidy

/-- What is left of a formatting if cells are known by their sources only: the sources, and the
notes or the failure. -/
def Formatting.seen (after : Formatting) : List Text × Except FormatterError Rejections :=
  (Cell.sources after.cells, after.result.map fun _ => after.rejections)

/-- **The formatting of texts**, one after the other: the texts, those that were reached formatted,
and the notes or the failure. -/
def formatTexts (mode : Mode) :
    List Text → Rejections → Task (List Text × Except FormatterError Rejections)
  | [], rejections => .done ([], .ok rejections)
  | text :: rest, rejections => .poll fun
    | true => .done (text :: rest, .error .interrupted)
    | false => ((formatSource mode text).start rejections).bind fun
      | (.error error, _) => .done (text :: rest, .error error)
      | (.ok formatted, rejections) => (formatTexts mode rest rejections).bind fun
        | (texts, result) => .done (formatted :: texts, result)

theorem CodeCell.source_setSource (text : Text) (cell : CodeCell) :
    (cell.setSource text).source = text := Fragment.join_split text

/-- A formatted cell is seen by the text that it was formatted to. -/
theorem Formatting.seen_after (cell : CodeCell) (text : Text) (rest : Formatting) :
    (after cell text rest).seen = (text :: rest.seen.1, rest.seen.2) := by
  have hsources : Cell.sources (after cell text rest).cells = text :: Cell.sources rest.cells :=
    congrArg (· :: Cell.sources rest.cells) (cell.source_setSource text)
  have hresult : (after cell text rest).result.map (fun _ => rest.rejections) =
      rest.result.map fun _ => rest.rejections := by
    rw [after]
    cases rest.result <;> rfl
  exact Prod.ext hsources hresult

/-- **A formatting of cells is seen as the formatting of their sources.** -/
theorem formatCells_seen (mode : Mode) (cells : List Cell) (rejections : Rejections) :
    (formatCells mode cells rejections).bind (fun after => .done after.seen) =
      formatTexts mode (Cell.sources cells) rejections := by
  induction cells generalizing rejections with
  | nil => rfl
  | cons cell rest ih =>
    cases cell with
    | other members =>
      -- a cell without code is put back where it was, and is not seen
      rw [formatCells_other, Task.bind_assoc]
      exact ih rejections
    | code cell =>
      have hsources : Cell.sources (.code cell :: rest) = cell.source :: Cell.sources rest := rfl
      rw [formatCells_code, hsources, formatTexts]
      refine congrArg Task.poll (funext fun cancelled => ?_)
      cases cancelled with
      | true => rfl
      | false =>
        change (Task.bind _ _).bind _ = Task.bind _ _
        rw [Task.bind_assoc]
        refine congrArg _ (funext fun ⟨result, between⟩ => ?_)
        cases result with
        | error error => rfl
        | ok text =>
          change (Task.bind _ _).bind _ = Task.bind _ _
          rw [Task.bind_assoc, ← ih between, Task.bind_assoc]
          refine congrArg _ (funext fun after => ?_)
          show Task.done (Formatting.after cell text after).seen = _
          rw [Formatting.seen_after]
          rfl

namespace Notebook

/-- **A formatting of a notebook is seen as the formatting of its sources.** -/
theorem format_seen (mode : Mode) (n : Notebook) :
    ((n.format mode).bind fun (n', result) =>
        .done (n'.codeCells.map CodeCell.source, result.map Prod.snd)) =
      formatTexts mode (n.codeCells.map CodeCell.source) .empty := by
  rw [format_eq, Task.bind_assoc]
  refine Eq.trans ?_ (formatCells_seen mode n.cells .empty)
  refine congrArg _ (funext fun after => ?_)
  show Task.done (_, Except.map Prod.snd (after.result.map (·, after.rejections))) = _
  have hresult : Except.map Prod.snd (after.result.map (·, after.rejections)) =
      after.result.map fun _ => after.rejections := by
    cases after.result <;> rfl
  rw [hresult]
  rfl

/-- **Only the sources of code cells are seen.**  If two notebooks have the same sources in their
code cells, in the same order, then with every formatter, whatever its answers depend on and
whenever it lets the run be cancelled, formatting the one does what formatting the other does: the
same calls are made and the world is left the same, the notes or the failure are the same, and the
sources that are left are the same. -/
theorem format_sees_sources (formatter : Formatter) (mode : Mode) {n n' : Notebook}
    (h : n'.codeCells.map CodeCell.source = n.codeCells.map CodeCell.source) (w : World) :
    let run := (n.format mode).run formatter w
    let run' := (n'.format mode).run formatter w
    run'.2 = run.2 ∧ run'.1.2.map Prod.snd = run.1.2.map Prod.snd ∧
      run'.1.1.codeCells.map CodeCell.source = run.1.1.codeCells.map CodeCell.source := by
  intro run run'
  -- both are seen as one task, so they are carried out as one
  have hseen := format_seen mode n'
  rw [h, ← format_seen mode n] at hseen
  have hruns := congrArg (Task.run formatter · w) hseen
  simp only [Task.run_bind, Task.run, Prod.mk.injEq] at hruns
  obtain ⟨⟨hsources, hresult⟩, hworld⟩ := hruns
  exact ⟨hworld, hresult, hsources⟩

/-- A notebook of three code cells and nothing else, the first with a directive. -/
def gathered : Notebook :=
  ⟨[], ["%cd\nx=1\n".toList, "y=2".toList, "z=3".toList].map fun source =>
    .code ⟨[(kindKey, .string codeKind)], .text, Fragment.split source, []⟩, [], .compact⟩

/-- The same sources among other cells, cut up in other ways, and in another layout. -/
def scattered : Notebook :=
  ⟨[("title".toList, .string "z=3".toList)],
    [.other [(kindKey, .string "markdown".toList)],
      .code ⟨[(kindKey, .string codeKind)], .lines, ["%c".toList, "d\nx=1\n".toList],
        [("outputs".toList, .array [])]⟩,
      .other [(kindKey, .string "raw".toList)],
      .code ⟨[], .lines, [[], "y=2".toList], []⟩, .code ⟨[], .lines, ["z=3".toList], []⟩],
    [], .standard⟩

/-- The spacing formatter with the number of earlier requests above the code, interrupted while it
answers the third. -/
def numbering : Formatter := fun history call =>
  ⟨(Spacing.format call.source).map (Decimal.write history.length ++ '\n' :: ·),
    if history.length = 2 then 1 else 0⟩

/-- Both are cancelled before the third code cell, with the same numbers in the first two. -/
theorem seen_of_scattered :
    let run := (gathered.format .standard).run numbering (.start ⟨[], []⟩)
    let run' := (scattered.format .standard).run numbering (.start ⟨[], []⟩)
    scattered.codeCells.map CodeCell.source = gathered.codeCells.map CodeCell.source ∧
      run.2.calls.map Call.source = ["y=2".toList, "x=1\n".toList, "%cd\nx=1\n".toList] ∧
      run.1.2 = .error .interrupted ∧
      run.1.1.codeCells.map CodeCell.source =
        ["%cd\n1\nx = 1\n".toList, "2\ny = 2\n".toList, "z=3".toList] ∧
      run'.2 = run.2 ∧ run'.1.2.map Prod.snd = run.1.2.map Prod.snd ∧
      run'.1.1.codeCells.map CodeCell.source = run.1.1.codeCells.map CodeCell.source := by
  intro run run'
  have hsame : scattered.codeCells.map CodeCell.source = gathered.codeCells.map CodeCell.source :=
    rfl
  exact ⟨hsame, rfl, rfl, rfl, format_sees_sources numbering .standard hsame (.start ⟨[], []⟩)⟩

end Notebook
end NotebookTidy
