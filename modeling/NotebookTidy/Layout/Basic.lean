import NotebookTidy.Text.Search

/-!
# The layout of a document

The same value can be written in many ways.  A **layout** is the style that a document has and
should keep when it is written again: how deep its lines are indented (or that all of it is one
line), how its lines end, how its separators are spaced, whether it keeps to ASCII, and what
stands at its two ends.
-/

namespace NotebookTidy

/-- How a line ends. -/
inductive LineEnding where
  /-- A line feed. -/
  | lf
  /-- A carriage return and a line feed. -/
  | crlf
deriving Repr, DecidableEq

/-- The characters of a line end. -/
def LineEnding.text : LineEnding → Text
  | .lf => ['\n']
  | .crlf => ['\r', '\n']

/-- The textual style of a document. -/
structure Layout where
  /-- What one level of nesting is indented by, or `none` for a document on one line. -/
  indent : Option Text
  /-- How lines end. -/
  lineEnding : LineEnding
  /-- On one line, separators are followed by a space. -/
  spacedSeparators : Bool
  /-- Characters beyond ASCII are escaped. -/
  asciiOnly : Bool
  /-- The document starts with a byte order mark. -/
  byteOrderMark : Bool
  /-- The document ends with a line end. -/
  finalLineEnd : Bool
deriving Repr, DecidableEq

namespace Layout

/-- The style of notebooks that were never read from a document: one space for each level, line
feeds, and a final line end. -/
def standard : Layout := ⟨some [' '], .lf, false, false, false, true⟩

/-- The style without any blank. -/
def compact : Layout := ⟨none, .lf, false, false, false, false⟩

/-- The byte order mark. -/
def markChar : Char := '\uFEFF'

/-- What stands between a key and its value. -/
def keySeparator (l : Layout) : Text :=
  if l.indent.isSome || l.spacedSeparators then [':', ' '] else [':']

/-- Layouts that documents are written in: an indent is made of spaces and tabs, and only a
document on one line has a choice of separators. -/
def WellFormed (l : Layout) : Prop :=
  (∀ indent ∈ l.indent, ∀ c ∈ indent, c = ' ' ∨ c = '\t') ∧
    (l.indent.isSome → l.spacedSeparators = false)

end Layout
end NotebookTidy
