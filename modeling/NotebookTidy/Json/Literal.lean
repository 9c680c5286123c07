import NotebookTidy.Text.Decimal

/-!
# String literals

Between its quotes a string is written character by character (`escape`): a quote, a backslash
and the controls must be escaped, and nothing else is, unless the document keeps to ASCII.  Then
every other character is written by its UTF-16 units, one or two of them.

What is read between quotes is a list of **pieces**: characters, and the units of `\u` escapes.
Only `text?` puts two units together to one character, and refuses a unit that lacks its partner.
-/

namespace NotebookTidy
namespace Literal

/-- The UTF-16 units of a character: itself, or a high and a low surrogate. -/
def units (c : Char) : List Nat :=
  let n := c.toNat
  if n < 0x10000 then [n] else [0xD800 + (n - 0x10000) / 0x400, 0xDC00 + (n - 0x10000) % 0x400]

/-- The escape of one unit. -/
def unitEscape (unit : Nat) : Text := '\\' :: 'u' :: Hexadecimal.four unit

/-- A character as it is written between quotes, keeping to ASCII or not. -/
def escape (ascii : Bool) (c : Char) : Text :=
  if c = '"' then ['\\', '"']
  else if c = '\\' then ['\\', '\\']
  else if c = '\x08' then ['\\', 'b']
  else if c = '\t' then ['\\', 't']
  else if c = '\n' then ['\\', 'n']
  else if c = '\x0c' then ['\\', 'f']
  else if c = '\r' then ['\\', 'r']
  else if c.toNat < 0x20 then unitEscape c.toNat
  else if ascii && 0x80 ≤ c.toNat then (units c).flatMap unitEscape
  else [c]

/-- A text between quotes. -/
def write (ascii : Bool) (t : Text) : Text := '"' :: t.flatMap (escape ascii) ++ ['"']

/-- What stands between quotes. -/
inductive Piece where
  /-- A character, itself or by an escape of its own. -/
  | char (c : Char)
  /-- A UTF-16 unit, by a `\u` escape. -/
  | unit (n : Nat)
deriving Repr, DecidableEq

/-- The unit is the first half of a character. -/
def isHighSurrogate (n : Nat) : Bool := 0xD800 ≤ n && n < 0xDC00

/-- The unit is the second half of a character. -/
def isLowSurrogate (n : Nat) : Bool := 0xDC00 ≤ n && n < 0xE000

/-- The character of two halves. -/
def pair (high low : Nat) : Char := Char.ofNat (0x10000 + 0x400 * (high - 0xD800) + (low - 0xDC00))

/-- The text of a list of pieces, unless a half of a character stands alone. -/
def text? : List Piece → Option Text
  | [] => some []
  | .char c :: rest => (text? rest).map (c :: ·)
  | [.unit n] =>
    if isHighSurrogate n || isLowSurrogate n then none else some [Char.ofNat n]
  | .unit n :: .char c :: rest =>
    if isHighSurrogate n || isLowSurrogate n then none
    else (text? rest).map (Char.ofNat n :: c :: ·)
  | .unit n :: .unit m :: rest =>
    if isHighSurrogate n then
      if isLowSurrogate m then (text? rest).map (pair n m :: ·) else none
    else if isLowSurrogate n then none
    else (text? (.unit m :: rest)).map (Char.ofNat n :: ·)

/-- The character that a single letter after a backslash stands for. -/
def shortEscape? : Char → Option Char
  | '"' => some '"'
  | '\\' => some '\\'
  | '/' => some '/'
  | 'b' => some '\x08'
  | 'f' => some '\x0c'
  | 'n' => some '\n'
  | 'r' => some '\r'
  | 't' => some '\t'
  | _ => none

end Literal
end NotebookTidy
