import NotebookTidy.Json.Reader
import NotebookTidy.Layout.Detect
import NotebookTidy.Layout.Writer
import NotebookTidy.Notebook.Basic
import NotebookTidy.Notebook.Error

/-!
# Notebooks and documents

`Notebook.read` makes a notebook of a document and `Notebook.write` a document of a notebook.
The value of the document decides what the notebook holds, its text decides the layout; a single
byte order mark at the start belongs to the layout only.

Faults are reported in the order in which a reader of the document meets them: the top level, the
cells one after the other, and in a cell its kind before its source.
-/

namespace NotebookTidy

namespace CodeCell

/-- The fragments of a list of source lines, unless one is not a text. -/
def fragmentsOf : List Json → Except CellFault (List Text)
  | [] => .ok []
  | .string line :: rest => (fragmentsOf rest).map (line :: ·)
  | value :: _ => .error (.badLine value)

/-- The shape and fragments of a source. -/
def sourceOf : Json → Except CellFault (SourceForm × List Text)
  | .string text => .ok (.text, Fragment.split text)
  | .array lines => (fragmentsOf lines).map (.lines, ·)
  | value => .error (.badSource value)

/-- The code cell with these members. -/
def ofMembers (members : Members) : Except CellFault CodeCell :=
  match Members.split? sourceKey members with
  | none => .error .noSource
  | some (before, source, after) =>
    (sourceOf source).map fun (shape, fragments) => ⟨before, shape, fragments, after⟩

end CodeCell

namespace Cell

/-- The cell with this value. -/
def ofJson : Json → Except CellFault Cell
  | .object members =>
    match Members.get? kindKey members with
    | none => .error .noKind
    | some (.string kind) =>
      if kind = codeKind then (CodeCell.ofMembers members).map .code else .ok (.other members)
    | some value => .error (.badKind value)
  | _ => .error .notAnObject

/-- The cells with these values, the first of which has an index. -/
def ofList (index : Nat) : List Json → Except StructureFault (List Cell)
  | [] => .ok []
  | v :: rest =>
    match ofJson v with
    | .error fault => .error (.cell index fault)
    | .ok cell => (ofList (index + 1) rest).map (cell :: ·)

end Cell

namespace Notebook

/-- The notebook with this value, to be written in a layout. -/
def ofJson (layout : Layout) : Json → Except StructureFault Notebook
  | .object members =>
    match Members.split? cellsKey members with
    | none => .error .noCells
    | some (before, .array values, after) =>
      (Cell.ofList 0 values).map fun cells => ⟨before, cells, after, layout⟩
    | some _ => .error .cellsNotAList
  | _ => .error .notAnObject

/-- A document without a byte order mark at its start. -/
def withoutMark : Text → Text
  | [] => []
  | c :: rest => if c = Layout.markChar then rest else c :: rest

/-- The notebook of a document. -/
def read (document : Text) : Except NotebookError Notebook :=
  match Json.read? (withoutMark document) with
  | none => .error .syntaxError
  | some value => (ofJson (Layout.detect document) value).mapError .structural

/-- The document of a notebook. -/
def write (n : Notebook) : Text := n.layout.write n.toJson

/-- The notebook in a file's octets. -/
def ofOctets (octets : Octets) : Except NotebookError Notebook :=
  match Utf8.decode octets with
  | .error fault => .error (.encoding fault)
  | .ok document => read document

end Notebook
end NotebookTidy
