import NotebookTidy.Json.Literal
import NotebookTidy.Json.Value
import NotebookTidy.Layout.Basic

/-!
# The text of a value in a layout

`render` gives the text of a value by recursion on the value: each item stands on a line of its
own, indented by its depth, or all stand on one line with the layout's separators.  An empty
array is `[]` and an empty object is `{}`, whatever the layout.
-/

namespace NotebookTidy
namespace Layout

/-- The indent of so many levels. -/
def indentOf (indent : Text) : Nat → Text
  | 0 => []
  | depth + 1 => indent ++ indentOf indent depth

/-- The break before an item at a depth: a new line with its indent, or nothing on one line. -/
def lineBreak (l : Layout) (depth : Nat) : Text :=
  match l.indent with
  | some indent => l.lineEnding.text ++ indentOf indent depth
  | none => []

/-- What stands between two items, before the break. -/
def itemSeparator (l : Layout) : Text :=
  if l.indent.isNone && l.spacedSeparators then [',', ' '] else [',']

/-- Items, each already text, between brackets whose inside has a depth. -/
def enclose (l : Layout) (depth : Nat) (opening closing : Char) : List Text → Text
  | [] => [opening, closing]
  | item :: items =>
    opening :: l.lineBreak depth ++ item ++
      (items.flatMap fun next => l.itemSeparator ++ l.lineBreak depth ++ next) ++
      l.lineBreak (depth - 1) ++ [closing]

mutual

/-- The text of a value inside so many arrays and objects. -/
def renderValue (l : Layout) (depth : Nat) : Json → Text
  | .null => "null".toList
  | .boolean true => "true".toList
  | .boolean false => "false".toList
  | .number n => n.write
  | .string t => Literal.write l.asciiOnly t
  | .array items => l.enclose (depth + 1) '[' ']' (renderItems l (depth + 1) items)
  | .object members => l.enclose (depth + 1) '{' '}' (renderMembers l (depth + 1) members)

/-- The texts of items. -/
def renderItems (l : Layout) (depth : Nat) : List Json → List Text
  | [] => []
  | v :: rest => renderValue l depth v :: renderItems l depth rest

/-- The texts of members, each a key with its value. -/
def renderMembers (l : Layout) (depth : Nat) : List (Text × Json) → List Text
  | [] => []
  | (key, v) :: rest =>
    (Literal.write l.asciiOnly key ++ l.keySeparator ++ renderValue l depth v) ::
      renderMembers l depth rest

end

/-- The text of a document: the value between what the layout puts at the two ends. -/
def render (l : Layout) (v : Json) : Text :=
  (if l.byteOrderMark then [markChar] else []) ++ renderValue l 0 v ++
    (if l.finalLineEnd then l.lineEnding.text else [])

end Layout

/-- The text of a value without any blank. -/
def Json.compact (v : Json) : Text := Layout.render Layout.compact v

end NotebookTidy
