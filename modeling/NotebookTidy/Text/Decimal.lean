import NotebookTidy.Text.Search

/-!
# Numerals and digits

Natural numbers as decimal numerals, and the sixteen hexadecimal digits.  Reading is separate
from writing: `read?` takes any non-empty run of digits, leading zeros included.

Numerals are written with the ten digits of ASCII.  The scripts of the world have others: each
writes its ten decimal digits as ten characters in a row, so each row is known by its zero
(`Text.isDecimalDigit`).
-/

namespace NotebookTidy
namespace Decimal

/-- The decimal numeral of a number, without leading zeros. -/
def write (n : Nat) : Text := Nat.toDigits 10 n

/-- A decimal digit. -/
def isDigit (c : Char) : Bool := '0' ≤ c && c ≤ '9'

/-- The value of a decimal digit. -/
def digitValue (c : Char) : Nat := c.toNat - '0'.toNat

/-- The value of a run of digits, read from the left onto a value so far. -/
def valueFrom (value : Nat) (digits : Text) : Nat :=
  digits.foldl (fun n c => 10 * n + digitValue c) value

/-- The number a non-empty run of decimal digits stands for. -/
def read? (t : Text) : Option Nat :=
  if t ≠ [] ∧ t.all isDigit then some (valueFrom 0 t) else none

end Decimal

namespace Hexadecimal

/-- The digit of a value below sixteen, in lower case. -/
def digit (n : Nat) : Char :=
  if n < 10 then Char.ofNat (n + '0'.toNat) else Char.ofNat (n - 10 + 'a'.toNat)

/-- The value of a hexadecimal digit of either case. -/
def value? (c : Char) : Option Nat :=
  if '0' ≤ c && c ≤ '9' then some (c.toNat - '0'.toNat)
  else if 'a' ≤ c && c ≤ 'f' then some (c.toNat - 'a'.toNat + 10)
  else if 'A' ≤ c && c ≤ 'F' then some (c.toNat - 'A'.toNat + 10)
  else none

/-- The value of a run of hexadecimal digits of either case. -/
def read? (t : Text) : Option Nat :=
  t.foldlM (fun n c => (value? c).map (16 * n + ·)) 0

/-- A number below 2^16 as four digits. -/
def four (n : Nat) : Text :=
  [digit (n / 4096 % 16), digit (n / 256 % 16), digit (n / 16 % 16), digit (n % 16)]

end Hexadecimal

/-! ## Digits of all scripts -/

namespace Text

/-- The zeros of the scripts that have decimal digits. -/
def zeros : List Nat :=
  [0x30, 0x660, 0x6F0, 0x7C0, 0x966, 0x9E6, 0xA66, 0xAE6, 0xB66, 0xBE6, 0xC66, 0xCE6, 0xD66,
    0xDE6, 0xE50, 0xED0, 0xF20, 0x1040, 0x1090, 0x17E0, 0x1810, 0x1946, 0x19D0, 0x1A80, 0x1A90,
    0x1B50, 0x1BB0, 0x1C40, 0x1C50, 0xA620, 0xA8D0, 0xA900, 0xA9D0, 0xA9F0, 0xAA50, 0xABF0,
    0xFF10, 0x104A0, 0x10D30, 0x10D40, 0x11066, 0x110F0, 0x11136, 0x111D0, 0x112F0, 0x11450,
    0x114D0, 0x11650, 0x116C0, 0x116D0, 0x116DA, 0x11730, 0x118E0, 0x11950, 0x11BF0, 0x11C50,
    0x11D50, 0x11DA0, 0x11F50, 0x16130, 0x16A60, 0x16AC0, 0x16B50, 0x16D70, 0x1CCF0, 0x1D7CE,
    0x1D7D8, 0x1D7E2, 0x1D7EC, 0x1D7F6, 0x1E140, 0x1E2F0, 0x1E4F0, 0x1E5F1, 0x1E950, 0x1FBF0]

/-- The character is a decimal digit of some script. -/
def isDecimalDigit (c : Char) : Bool :=
  zeros.any fun first => first ≤ c.toNat && c.toNat < first + 10

end Text
end NotebookTidy
