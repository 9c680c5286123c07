import NotebookTidy.IoFault
import NotebookTidy.Layout.Render
import NotebookTidy.Text.Utf8

/-!
# Why a document is no notebook

A document can fail to be read as a file, as text, as a value, or as a notebook.  The last kind
of failure is structural and has a cause: what is missing or of the wrong type, and in which cell.
Causes carry the offending value; wording is only in `message`.
-/

namespace NotebookTidy

/-- What is wrong with a cell. -/
inductive CellFault where
  /-- The cell is not an object. -/
  | notAnObject
  /-- The cell does not say its kind. -/
  | noKind
  /-- The kind is not a text. -/
  | badKind (value : Json)
  /-- A code cell has no source. -/
  | noSource
  /-- A line of a code cell's source is not a text. -/
  | badLine (value : Json)
  /-- A code cell's source is neither a text nor a list. -/
  | badSource (value : Json)
deriving Repr, DecidableEq

/-- What is wrong with a document's value. -/
inductive StructureFault where
  /-- The value is not an object. -/
  | notAnObject
  /-- There are no cells. -/
  | noCells
  /-- The cells are not a list. -/
  | cellsNotAList
  /-- The first faulty cell, and its fault. -/
  | cell (index : Nat) (fault : CellFault)
  /-- A fault in the words of whoever found it. -/
  | described (text : Text)
deriving Repr, DecidableEq

/-- Why there is no notebook. -/
inductive NotebookError where
  /-- The file cannot be read. -/
  | io (fault : IoFault)
  /-- The text is not a value. -/
  | syntaxError
  /-- The octets are not text. -/
  | encoding (fault : Utf8.Fault)
  /-- The value is not a notebook. -/
  | structural (fault : StructureFault)
deriving Repr, DecidableEq

/-- The wording of a cell's fault, with the cell's index. -/
def CellFault.message (index : Nat) : CellFault → Text
  | .notAnObject => "cell ".toList ++ Decimal.write index ++ " is not a JSON object".toList
  | .noKind => "cell ".toList ++ Decimal.write index ++ " has no `cell_type` field".toList
  | .badKind v =>
    "cell ".toList ++ Decimal.write index ++ " has an invalid `cell_type`: ".toList ++ v.compact
  | .noSource => "code cell ".toList ++ Decimal.write index ++ " has no `source` field".toList
  | .badLine v =>
    "code cell ".toList ++ Decimal.write index ++ " has a non-string source line: ".toList ++
      v.compact
  | .badSource v =>
    "code cell ".toList ++ Decimal.write index ++ " has an invalid `source` field: ".toList ++
      v.compact

/-- The wording of a structural fault. -/
def StructureFault.message : StructureFault → Text
  | .notAnObject => "top-level value is not a JSON object".toList
  | .noCells => "notebook has no `cells` field".toList
  | .cellsNotAList => "`cells` is not a list".toList
  | .cell index fault => fault.message index
  | .described text => text

/-- The wording of an error. -/
def NotebookError.message : NotebookError → Text
  | .io fault => "Failed to read notebook file: ".toList ++ fault.message
  | .syntaxError => "Failed to parse notebook JSON".toList
  | .encoding fault => "Notebook is not valid UTF-8: ".toList ++ fault.message
  | .structural fault => "Invalid notebook format: ".toList ++ fault.message

end NotebookTidy
