import NotebookTidy.CellFormat
import NotebookTidy.Notebook.Basic

/-!
# Formatting and checking a notebook

The code cells of a notebook are formatted from the first to the last.  Before each one the task
asks whether the run has been cancelled.  A cell has changed if the fragments of the formatted
text are not its fragments, so a list of fragments that no text is split into counts as changed
even if the text stays the same.

Formatting goes through all cells and leaves those it has finished as they are when it fails;
checking stops at the first cell that would change.
-/

namespace NotebookTidy

/-- How far the formatting of cells got. -/
structure Formatting where
  /-- The cells, those that were reached formatted. -/
  cells : List Cell
  /-- Whether a cell has changed, or why not all cells were reached. -/
  result : Except FormatterError Bool
  /-- The code that was rejected on the way. -/
  rejections : Rejections

/-- The rest of a formatting once a code cell has been formatted to a text. -/
def Formatting.after (cell : CodeCell) (text : Text) (rest : Formatting) : Formatting :=
  { rest with
    cells := .code (cell.setSource text) :: rest.cells
    result := rest.result.map ((cell.setSource text).fragments ≠ cell.fragments || ·) }

/-- Cells formatted one after the other. -/
def formatCells (mode : Mode) : List Cell → Rejections → Task Formatting
  | [], rejections => pure ⟨[], .ok false, rejections⟩
  | .other members :: rest, rejections => do
    let after ← formatCells mode rest rejections
    pure { after with cells := .other members :: after.cells }
  | .code cell :: rest, rejections => do
    if ← Task.isCancelled then
      pure ⟨.code cell :: rest, .error .interrupted, rejections⟩
    else
      let (result, rejections) ← (formatSource mode cell.source).start rejections
      match result with
      | .error error => pure ⟨.code cell :: rest, .error error, rejections⟩
      | .ok text =>
        let after ← formatCells mode rest rejections
        pure (.after cell text after)

/-- Cells checked one after the other: whether all are formatted, as far as they were looked at. -/
def checkCells (mode : Mode) :
    List Cell → Rejections → Task (Except FormatterError Bool × Rejections)
  | [], rejections => pure (.ok true, rejections)
  | .other _ :: rest, rejections => checkCells mode rest rejections
  | .code cell :: rest, rejections => do
    if ← Task.isCancelled then pure (.error .interrupted, rejections)
    else
      let (result, rejections) ← (formatSource mode cell.source).start rejections
      match result with
      | .error error => pure (.error error, rejections)
      | .ok text =>
        if Fragment.split text = cell.fragments then checkCells mode rest rejections
        else pure (.ok false, rejections)

namespace Notebook

/-- The notebook after its formatting, with whether it changed and the rejected code, or with the
failure that ended the formatting. -/
def format (mode : Mode) (n : Notebook) :
    Task (Notebook × Except FormatterError (Bool × Rejections)) := do
  let after ← formatCells mode n.cells .empty
  pure ({ n with cells := after.cells }, after.result.map (·, after.rejections))

/-- Whether the notebook is formatted, with the rejected code, or the failure that ended the
check. -/
def check (mode : Mode) (n : Notebook) : Task (Except FormatterError (Bool × Rejections)) := do
  let (result, rejections) ← checkCells mode n.cells .empty
  pure (result.map (·, rejections))

end Notebook
end NotebookTidy
