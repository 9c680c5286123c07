import NotebookTidy.Text.Blank

/-!
# Searching a text

Whether a word occurs in a text, what is left of a text after a word at its start, and the
pieces of a text between the occurrences of a separator.
-/

namespace NotebookTidy
namespace Text

/-- The word occurs somewhere in the text. -/
def contains (word : Text) : Text → Bool
  | [] => word.isEmpty
  | c :: rest => word.isPrefixOf (c :: rest) || contains word rest

/-- What follows the word, if the text starts with it. -/
def after? (word t : Text) : Option Text := List.isPrefixOf? word t

/-- The text ends with the word. -/
def endsWith (word t : Text) : Bool := word.isSuffixOf t

/-- The text cut at every occurrence of the character, which belongs to no piece.  There is
always at least one piece. -/
def splitAt (mark : Char) : Text → List Text
  | [] => [[]]
  | c :: rest =>
    match splitAt mark rest with
    | [] => [[]]
    | piece :: pieces => if c = mark then [] :: piece :: pieces else (c :: piece) :: pieces

/-- Pieces put side by side with a separator between any two. -/
def intercalate (separator : Text) : List Text → Text
  | [] => []
  | [piece] => piece
  | piece :: next :: pieces => piece ++ separator ++ intercalate separator (next :: pieces)

/-- The text cut at every occurrence of a word, from the left and without overlaps; `skip`
characters still belong to the occurrence found last.  There is always at least one piece. -/
def splitOnSkipping (word : Text) : Nat → Text → List Text
  | _, [] => [[]]
  | skip + 1, _ :: rest => splitOnSkipping word skip rest
  | 0, c :: rest =>
    if word.isPrefixOf (c :: rest) then [] :: splitOnSkipping word (word.length - 1) rest
    else
      match splitOnSkipping word 0 rest with
      | [] => [[c]]
      | piece :: pieces => (c :: piece) :: pieces

/-- The text cut at every occurrence of a word. -/
def splitOn (word t : Text) : List Text := splitOnSkipping word 0 t

/-- A text that is cut always leaves a first piece. -/
theorem splitAt_ne_nil (mark : Char) (t : Text) : splitAt mark t ≠ [] := by
  cases t with
  | nil => simp [splitAt]
  | cons c rest =>
    rw [splitAt]
    split
    · simp
    · split <;> simp

end Text
end NotebookTidy
