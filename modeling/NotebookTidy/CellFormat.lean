import NotebookTidy.Directive.Segments
import NotebookTidy.Task

/-!
# Formatting a cell

A cell's text goes to the formatter as a whole.  If it is refused because of a line that is a
directive, and the text has directive lines, its code segments go to the formatter one by one and
the directives stay where they are.  Code that is refused, the whole text or a segment, is kept
and noted down; only a failure of the formatter itself ends the formatting.
-/

namespace NotebookTidy

/-- A task that notes down rejected code and may end in a formatter's failure; the notes made
before a failure are kept. -/
abbrev Noting := ExceptT FormatterError (StateT Rejections Task)

namespace Noting

/-- The formatter's answer to a request. -/
def request (call : Call) : Noting Formatted := fun rejections => do
  let formatted ← Task.request call
  pure (.ok formatted, rejections)

/-- Code is noted down with the message of its rejection. -/
def note (code message : Text) : Noting Unit := fun rejections =>
  pure (.ok (), rejections.note code message)

/-- The task with the notes so far: its result or failure, and the notes afterwards. -/
def start {α : Type} (r : Noting α) (rejections : Rejections) :
    Task (Except FormatterError α × Rejections) := r rejections

end Noting

/-- The line that the formatter quoted is a directive, whatever stands before its mark. -/
def quotesDirective (line : Option Text) : Bool :=
  match line with
  | some line => isDirective (Text.trimStart line)
  | none => false

/-- **Code is sent to the formatter.**  If it is refused, something else is done instead, as the
line that is quoted tells, or else the code is kept and noted down. -/
def Noting.send (mode : Mode) (code : Text) (instead : Option Text → Option (Noting Text)) :
    Noting Text := do
  match ← request ⟨mode, code⟩ with
  | .ok formatted => pure formatted
  | .error (.cannotParse message line) =>
    match instead line with
    | some other => other
    | none =>
      note code message
      pure code
  | .error error => throw error

/-- A code segment, formatted or kept.  An empty one needs no formatter. -/
def formatSegment (mode : Mode) (segment : Text) : Noting Text :=
  if segment = [] then pure [] else .send mode segment fun _ => none

/-- The code segments of a text, formatted or kept, put together again. -/
def formatSegments (mode : Mode) (text : Text) : Noting Text := do
  let segments ← (Segments.split text).mapCodeM (formatSegment mode)
  pure segments.join

/-- A text whose refusal quotes a directive is cut up if it has directives at all. -/
def cutsUp (text : Text) (line : Option Text) : Bool :=
  quotesDirective line && (Segments.split text).tail ≠ []

/-- **A cell's text, formatted or kept**, as a whole or segment by segment. -/
def formatSource (mode : Mode) (text : Text) : Noting Text :=
  .send mode text fun line => if cutsUp text line then some (formatSegments mode text) else none

end NotebookTidy
