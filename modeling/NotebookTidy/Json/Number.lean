import NotebookTidy.Text.Decimal

/-!
# Numbers as they are written

A document's numbers are never computed with: they are kept, digit for digit, and written back.
A `Number` is the parts of a numeral.  Two spellings are not told apart: the exponent mark is
always `e`, and an exponent without a sign gets a plus sign.  Everything else, a negative zero
or any number of digits, stays as it was read.

A document may also spell a number in its **long form**, as an object with a key of its own
(`longFormKey`) whose value is a string with the numeral.
-/

namespace NotebookTidy

/-- The exponent of a numeral. -/
structure Exponent where
  /-- It has a minus sign. -/
  negative : Bool
  /-- Its digits, leading zeros included. -/
  digits : Text
deriving Repr, DecidableEq

/-- A numeral by its parts. -/
structure Number where
  /-- It has a minus sign. -/
  negative : Bool
  /-- The digits before the point. -/
  whole : Text
  /-- The digits after the point; none if there is no point. -/
  fraction : Text
  /-- The exponent, if there is one. -/
  exponent : Option Exponent
deriving Repr, DecidableEq

namespace Exponent

/-- An exponent is written with its sign, plus included. -/
def write (e : Exponent) : Text := 'e' :: (if e.negative then '-' else '+') :: e.digits

/-- There are digits, and only digits. -/
def WellFormed (e : Exponent) : Prop := e.digits ≠ [] ∧ e.digits.all Decimal.isDigit = true

instance (e : Exponent) : Decidable e.WellFormed := inferInstanceAs (Decidable (_ ∧ _))

/-- The exponent that a text after the mark spells, the whole text being used. -/
def ofText? (t : Text) : Option Exponent :=
  let e : Exponent :=
    match t with
    | '-' :: digits => ⟨true, digits⟩
    | '+' :: digits => ⟨false, digits⟩
    | digits => ⟨false, digits⟩
  if e.WellFormed then some e else none

end Exponent

namespace Number

/-- The digits before the point of a numeral: a single zero, or digits that do not start with
one. -/
def IsWhole (digits : Text) : Prop :=
  digits = ['0'] ∨ (digits ≠ [] ∧ digits.head? ≠ some '0' ∧ digits.all Decimal.isDigit = true)

instance (digits : Text) : Decidable (IsWhole digits) := inferInstanceAs (Decidable (_ ∨ _))

/-- **The numerals of a document**: a whole part without superfluous zeros, then digits after
the point, then a sound exponent. -/
def WellFormed (n : Number) : Prop :=
  IsWhole n.whole ∧ n.fraction.all Decimal.isDigit = true ∧ ∀ e ∈ n.exponent, e.WellFormed

/-- A numeral as it is written. -/
def write (n : Number) : Text :=
  (if n.negative then ['-'] else []) ++ n.whole ++
    (if n.fraction = [] then [] else '.' :: n.fraction) ++
    (match n.exponent with
      | none => []
      | some e => e.write)

/-- The exponent part of a numeral: nothing, or a mark of either case with an exponent. -/
def exponentOfText? : Text → Option (Option Exponent)
  | [] => some none
  | c :: rest => if c = 'e' ∨ c = 'E' then (Exponent.ofText? rest).map some else none

/-- What follows the whole part: a point with at least one digit, if there is a point, and the
exponent. -/
def fractionOfText? : Text → Option (Text × Option Exponent)
  | '.' :: rest =>
    let digits := rest.takeWhile Decimal.isDigit
    if digits = [] then none
    else (exponentOfText? (rest.dropWhile Decimal.isDigit)).map (digits, ·)
  | rest => (exponentOfText? rest).map ([], ·)

/-- The unsigned numeral that a text spells, the whole text being used. -/
def unsignedOfText? (negative : Bool) (t : Text) : Option Number :=
  let whole := t.takeWhile Decimal.isDigit
  if IsWhole whole then
    (fractionOfText? (t.dropWhile Decimal.isDigit)).map fun (fraction, exponent) =>
      ⟨negative, whole, fraction, exponent⟩
  else none

/-- The numeral that a text spells, the whole text being used. -/
def ofText? : Text → Option Number
  | '-' :: rest => unsignedOfText? true rest
  | rest => unsignedOfText? false rest

/-- The key of a number in its long form.  An object that starts with it is a number or is
refused. -/
def longFormKey : Text := "$serde_json::private::Number".toList

end Number
end NotebookTidy
