/-!
# Text and its blanks

Every text of the library is a list of characters: a cell's source, a document, a path, a
message.  Lists carry structural recursion, so each function below unfolds on a concrete text
and each law about it is an induction.

This module says which characters are **blank** (`isBlank`) and removes them from the ends of a
text.  Blank is the white space of the character standard, not only the six blanks of ASCII: a
cell that ends in a no-break space ends in a blank.
-/

namespace NotebookTidy

/-- A text, character by character. -/
abbrev Text := List Char

namespace Text

/-- The white space of the character standard: the controls from tab to carriage return, the
space, next line, no-break space, the typographic spaces, and the line and paragraph
separators. -/
def isBlank (c : Char) : Bool :=
  let n := c.toNat
  (9 ≤ n && n ≤ 13) || n == 32 || n == 0x85 || n == 0xA0 || n == 0x1680 ||
    (0x2000 ≤ n && n ≤ 0x200A) || n == 0x2028 || n == 0x2029 || n == 0x202F || n == 0x205F ||
    n == 0x3000

/-- The text from its first character that is not blank on. -/
def trimStart (t : Text) : Text := t.dropWhile isBlank

/-- The text up to its last character that is not blank. -/
def trimEnd (t : Text) : Text := (t.reverse.dropWhile isBlank).reverse

/-- The text without the blanks at both ends. -/
def trim (t : Text) : Text := trimStart (trimEnd t)

/-- Every character is one of the first 128. -/
def isAscii (t : Text) : Bool := t.all (·.toNat < 128)

@[simp] theorem trimEnd_nil : trimEnd [] = [] := rfl

@[simp] theorem trimStart_nil : trimStart [] = [] := rfl

/-- Blanks at the start go one by one. -/
theorem trimStart_cons (c : Char) (t : Text) :
    trimStart (c :: t) = if isBlank c then trimStart t else c :: t := by
  cases h : isBlank c <;> simp [trimStart, h]

end Text
end NotebookTidy
