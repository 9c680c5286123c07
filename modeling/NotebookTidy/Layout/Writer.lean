import NotebookTidy.Json.Literal
import NotebookTidy.Json.Value
import NotebookTidy.Layout.Basic

/-!
# Writing a document in one pass

Documents are written by a pen that runs over the value once and knows only two things: how many
brackets are open, and whether a value has been completed since a bracket was last opened.  The
second decides whether a closing bracket gets a line of its own, and one flag serves all levels:
a closed bracket is itself a completed value, so on the way out of a non-empty array or object
the flag is up.
-/

namespace NotebookTidy
namespace Layout

/-- What is known while a document is written. -/
structure Pen where
  /-- How many brackets are open. -/
  depth : Nat
  /-- A value has been completed since a bracket was last opened. -/
  hasValue : Bool
deriving Repr, DecidableEq

/-- What is written, and the pen afterwards. -/
abbrev Stroke := Pen → Text × Pen

namespace Stroke

/-- Two strokes one after the other. -/
def followedBy (a b : Stroke) : Stroke := fun pen =>
  let (first, pen) := a pen
  let (second, pen) := b pen
  (first ++ second, pen)

/-- A text that leaves the pen as it is. -/
def text (t : Text) : Stroke := fun pen => (t, pen)

/-- Nothing is written. -/
def nothing : Stroke := text []

end Stroke

/-- A new line with the indent of the open brackets. -/
def newLine (l : Layout) (indent : Text) (pen : Pen) : Text :=
  l.lineEnding.text ++ (List.replicate pen.depth indent).flatten

/-- An opening bracket. -/
def openBracket (bracket : Char) : Stroke := fun pen => ([bracket], ⟨pen.depth + 1, false⟩)

/-- A closing bracket, on a line of its own if the layout has lines and something stands in the
brackets. -/
def closeBracket (l : Layout) (bracket : Char) : Stroke := fun pen =>
  let pen : Pen := ⟨pen.depth - 1, pen.hasValue⟩
  match l.indent with
  | some indent => ((if pen.hasValue then l.newLine indent pen else []) ++ [bracket], pen)
  | none => ([bracket], pen)

/-- What comes before an item, the first one or another. -/
def separate (l : Layout) (first : Bool) : Stroke := fun pen =>
  match l.indent with
  | some indent => ((if first then [] else [',']) ++ l.newLine indent pen, pen)
  | none => (if first then [] else if l.spacedSeparators then [',', ' '] else [','], pen)

/-- A value has been completed. -/
def endValue : Stroke := fun pen => ([], ⟨pen.depth, true⟩)

mutual

/-- A value. -/
def writeValue (l : Layout) : Json → Stroke
  | .null => .text "null".toList
  | .boolean true => .text "true".toList
  | .boolean false => .text "false".toList
  | .number n => .text n.write
  | .string t => .text (Literal.write l.asciiOnly t)
  | .array items =>
    ((openBracket '[').followedBy (writeItems l true items)).followedBy (l.closeBracket ']')
  | .object members =>
    ((openBracket '{').followedBy (writeMembers l true members)).followedBy
      (l.closeBracket '}')

/-- Items, starting with the first one or not. -/
def writeItems (l : Layout) (first : Bool) : List Json → Stroke
  | [] => .nothing
  | v :: rest =>
    ((l.separate first).followedBy ((writeValue l v).followedBy endValue)).followedBy
      (writeItems l false rest)

/-- Members, starting with the first one or not. -/
def writeMembers (l : Layout) (first : Bool) : List (Text × Json) → Stroke
  | [] => .nothing
  | (key, v) :: rest =>
    ((l.separate first).followedBy
      ((Stroke.text (Literal.write l.asciiOnly key ++ l.keySeparator)).followedBy
        ((writeValue l v).followedBy endValue))).followedBy
      (writeMembers l false rest)

end

/-- The text of a document in a layout. -/
def write (l : Layout) (v : Json) : Text :=
  (if l.byteOrderMark then [markChar] else []) ++ (writeValue l v ⟨0, false⟩).1 ++
    (if l.finalLineEnd then l.lineEnding.text else [])

end Layout
end NotebookTidy
