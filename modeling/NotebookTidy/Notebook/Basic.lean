import NotebookTidy.Json.Value
import NotebookTidy.Layout.Basic
import NotebookTidy.Text.Fragment

/-!
# Notebooks

A notebook is an object with a list of cells among its members.  Only **code cells** are ever
changed, and of a code cell only the source: it is stored as a list of fragments or as a single
text (its **shape**), and it keeps its place between the other members of the cell.  All other
cells, and all members around the cells, are kept as the values they were.

Taking a notebook apart and putting it together again (`toJson`) therefore moves nothing: members
are held as those *before* and those *after* the place in question.
-/

namespace NotebookTidy

/-- How a cell stores its source. -/
inductive SourceForm where
  /-- As a list of fragments. -/
  | lines
  /-- As one text. -/
  | text
deriving Repr, DecidableEq

/-- A cell whose source is code. -/
structure CodeCell where
  /-- The members before the source. -/
  before : Members
  /-- How the source is stored. -/
  shape : SourceForm
  /-- The source, in fragments. -/
  fragments : List Text
  /-- The members after the source. -/
  after : Members
deriving Repr, DecidableEq

/-- A cell of a notebook. -/
inductive Cell where
  /-- A code cell. -/
  | code (cell : CodeCell)
  /-- A cell of another kind, with all its members. -/
  | other (members : Members)
deriving Repr, DecidableEq

/-- A notebook with the layout of its document. -/
structure Notebook where
  /-- The members before the cells. -/
  before : Members
  /-- The cells, in order. -/
  cells : List Cell
  /-- The members after the cells. -/
  after : Members
  /-- The layout to write the notebook in. -/
  layout : Layout
deriving Repr, DecidableEq

/-- The key of a notebook's cells. -/
def cellsKey : Text := "cells".toList

/-- The key of a cell's kind. -/
def kindKey : Text := "cell_type".toList

/-- The key of a code cell's source. -/
def sourceKey : Text := "source".toList

/-- The kind of code cells. -/
def codeKind : Text := "code".toList

namespace CodeCell

/-- The source as one text. -/
def source (c : CodeCell) : Text := Fragment.join c.fragments

/-- The cell with another source. -/
def setSource (text : Text) (c : CodeCell) : CodeCell :=
  { c with fragments := Fragment.split text }

/-- The source as the value that the cell stores. -/
def sourceValue (c : CodeCell) : Json :=
  match c.shape with
  | .lines => .array (c.fragments.map .string)
  | .text => .string c.source

/-- The cell's members, the source in its place. -/
def members (c : CodeCell) : Members := c.before ++ (sourceKey, c.sourceValue) :: c.after

/-- The identifier of the cell, if it has one that is a text. -/
def id? (c : CodeCell) : Option Text :=
  match Members.get? "id".toList (c.before ++ c.after) with
  | some (.string t) => some t
  | _ => none

end CodeCell

namespace Cell

/-- The code cell, if the cell is one. -/
def asCode? : Cell → Option CodeCell
  | .code c => some c
  | .other _ => none

/-- The kind of the cell. -/
def kind : Cell → Text
  | .code _ => codeKind
  | .other members =>
    match Members.get? kindKey members with
    | some (.string t) => t
    | _ => []

/-- The cell as a value. -/
def toJson : Cell → Json
  | .code c => .object c.members
  | .other members => .object members

end Cell

namespace Notebook

/-- The code cells, in order. -/
def codeCells (n : Notebook) : List CodeCell := n.cells.filterMap Cell.asCode?

/-- The notebook as a value. -/
def toJson (n : Notebook) : Json :=
  .object (n.before ++ (cellsKey, .array (n.cells.map Cell.toJson)) :: n.after)

/-- Cells with the source of the code cell at a position replaced; positions count code cells
only. -/
def setSourceIn (text : Text) : Nat → List Cell → List Cell
  | _, [] => []
  | position, .other members :: rest => .other members :: setSourceIn text position rest
  | 0, .code c :: rest => .code (c.setSource text) :: rest
  | position + 1, .code c :: rest => .code c :: setSourceIn text position rest

/-- The notebook with the source of the code cell at a position replaced. -/
def setSource (position : Nat) (text : Text) (n : Notebook) : Notebook :=
  { n with cells := setSourceIn text position n.cells }

end Notebook
end NotebookTidy
