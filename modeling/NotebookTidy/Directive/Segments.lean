import NotebookTidy.Text.Fragment

/-!
# Directives and the code between them

A line such as `%matplotlib inline` or `!ls` is an instruction to the notebook's kernel and no
code.  A cell that holds such **directives** cannot be formatted as a whole, so it is cut into
its directive lines and the code before, between and after them (`Segments.split`), the code is
formatted piece by piece (`Segments.mapCodeM`), and everything is put together again
(`Segments.join`).

The type has one code segment more than it has directives by construction: the code before the
first directive, and then one for each directive.
-/

namespace NotebookTidy

/-- The characters that start a directive. -/
def directiveMarks : List Char := ['%', '!', '$']

/-- A line is a directive if it starts, in its first column, with one of the marks. -/
def isDirective (line : Text) : Bool :=
  match Text.trimEnd line with
  | [] => false
  | c :: _ => directiveMarks.contains c

/-- A text cut into directive lines and the code around them. -/
structure Segments where
  /-- The code before the first directive. -/
  head : Text
  /-- Each directive with the code that follows it. -/
  tail : List (Text × Text)
deriving Repr, DecidableEq

namespace Segments

/-- The code segments, from the first to the last. -/
def code (s : Segments) : List Text := s.head :: s.tail.map Prod.snd

/-- The directive lines, from the first to the last. -/
def directives (s : Segments) : List Text := s.tail.map Prod.fst

/-- The segments of a list of lines: a directive opens a new code segment, any other line belongs
to the code it stands in. -/
def ofLines : List Text → Segments
  | [] => ⟨[], []⟩
  | line :: lines =>
    let rest := ofLines lines
    if isDirective line then ⟨[], (line, rest.head) :: rest.tail⟩
    else ⟨line ++ rest.head, rest.tail⟩

/-- The segments of a text. -/
def split (t : Text) : Segments := ofLines (Fragment.split t)

/-- The text of directives with the code that follows each. -/
def joinTail : List (Text × Text) → Text
  | [] => []
  | (directive, code) :: rest => directive ++ code ++ joinTail rest

/-- The text that segments stand for. -/
def join (s : Segments) : Text := s.head ++ joinTail s.tail

/-- An action on the code after each directive, in order. -/
def mapTailM {m : Type → Type} [Monad m] (f : Text → m Text) :
    List (Text × Text) → m (List (Text × Text))
  | [] => pure []
  | (directive, code) :: rest => do
    let code ← f code
    let rest ← mapTailM f rest
    pure ((directive, code) :: rest)

/-- An action on each code segment, in order; the directives stay as they are. -/
def mapCodeM {m : Type → Type} [Monad m] (f : Text → m Text) (s : Segments) : m Segments := do
  let head ← f s.head
  let tail ← mapTailM f s.tail
  pure ⟨head, tail⟩

/-- There is one code segment more than there are directives. -/
theorem length_code (s : Segments) : s.code.length = s.directives.length + 1 := by
  simp [code, directives]

/-- **Cutting into segments loses nothing.** -/
theorem join_ofLines (lines : List Text) : join (ofLines lines) = lines.flatten := by
  induction lines with
  | nil => rfl
  | cons line lines ih =>
    simp only [join] at ih ⊢
    by_cases h : isDirective line <;> simp [ofLines, h, joinTail, ih]

theorem join_split (t : Text) : join (split t) = t := by
  rw [split, join_ofLines]
  exact Fragment.join_split t

end Segments
end NotebookTidy
