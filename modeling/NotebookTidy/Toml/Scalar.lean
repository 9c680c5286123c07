import NotebookTidy.Text.Decimal
import NotebookTidy.Toml.Value

/-!
# Numbers, dates and truth values

A value that is neither quoted nor bracketed is a **word**: the longest run of letters, digits
and the signs `+ - . _ :`.  No such sign can follow a value, so a word is a value as a whole or
the document is faulty.  `ofWord?` tries the kinds of values one after the other.

Integers have 64 bits with a sign.  A float is kept as it is written; only one that is too large
for any finite double is refused.
-/

namespace NotebookTidy
namespace Toml
namespace Scalar

/-- A character of a word. -/
def isWordChar (c : Char) : Bool :=
  c.isAlphanum || c = '+' || c = '-' || c = '.' || c = '_' || c = ':'

/-- A digit in a base up to sixteen, letters of either case. -/
def isDigitIn (base : Nat) (c : Char) : Bool :=
  match Hexadecimal.value? c with
  | some v => v < base
  | none => false

/-- Digits in a base in which single underscores may stand between two digits. -/
def digits? (base : Nat) (t : Text) : Option Text :=
  let groups := Text.splitAt '_' t
  if groups.all fun g => g ≠ [] && g.all (isDigitIn base) then some groups.flatten else none

/-- The number that digits in a base stand for. -/
def value (base : Nat) (digits : Text) : Nat :=
  digits.foldl (fun n c => base * n + (Hexadecimal.value? c).getD 0) 0

/-- An integer that 64 bits hold. -/
def bounded? (n : Int) : Option Int :=
  if -0x8000000000000000 ≤ n ∧ n < 0x8000000000000000 then some n else none

/-- A sign, and what follows it. -/
def signed : Text → Bool × Text
  | '-' :: rest => (true, rest)
  | '+' :: rest => (false, rest)
  | rest => (false, rest)

/-- Decimal digits without superfluous zeros. -/
def plainDigits? (t : Text) : Option Text :=
  match digits? 10 t with
  | some ['0'] => some ['0']
  | some ('0' :: _) => none
  | other => other

/-- The integer that a word stands for. -/
def integer? (word : Text) : Option Int :=
  match word with
  | '0' :: 'x' :: rest => (digits? 16 rest).bind fun d => bounded? (value 16 d)
  | '0' :: 'o' :: rest => (digits? 8 rest).bind fun d => bounded? (value 8 d)
  | '0' :: 'b' :: rest => (digits? 2 rest).bind fun d => bounded? (value 2 d)
  | _ =>
    let (negative, rest) := signed word
    (plainDigits? rest).bind fun d =>
      bounded? (if negative then -(value 10 d : Int) else value 10 d)

/-- A decimal number is at least half a step above the greatest finite double: its digits without
a point, and the power of ten they count. -/
def isTooLarge (digits : Text) (exponent : Int) : Bool :=
  let significant := digits.dropWhile (· = '0')
  let size : Int := significant.length + exponent
  if significant = [] ∨ size ≤ 308 then false
  else if size > 310 then true
  else
    -- both sides are whole numbers: the number and the bound, scaled by a power of ten
    let n := value 10 significant
    let bound := Nat.pow 2 1024 - Nat.pow 2 970
    if 0 ≤ exponent then bound ≤ n * Nat.pow 10 exponent.toNat
    else bound * Nat.pow 10 (-exponent).toNat ≤ n

/-- The parts of a word at its first exponent mark, if it has one. -/
def splitExponent (t : Text) : Text × Option Text :=
  match t.dropWhile fun c => c ≠ 'e' && c ≠ 'E' with
  | [] => (t, none)
  | _ :: exponent => (t.takeWhile fun c => c ≠ 'e' && c ≠ 'E', some exponent)

/-- The exponent after its mark, or zero if there is no mark. -/
def exponent? : Option Text → Option Int
  | none => some 0
  | some t =>
    let (negative, rest) := signed t
    (digits? 10 rest).map fun d => if negative then -(value 10 d : Int) else value 10 d

/-- The word is a number with a point or an exponent. -/
def isFloat (word : Text) : Bool :=
  let (negative, rest) := signed word
  if rest = "inf".toList ∨ rest = "nan".toList then true
  else
    let (mantissa, mark) := splitExponent rest
    let whole := mantissa.takeWhile (· ≠ '.')
    let fraction? : Option Text :=
      match mantissa.dropWhile (· ≠ '.') with
      | [] => if mark.isSome then some [] else none
      | _ :: fraction => digits? 10 fraction
    match plainDigits? whole, fraction?, exponent? mark with
    | some whole, some fraction, some exponent =>
      negative || !isTooLarge (whole ++ fraction) (exponent - fraction.length)
    | _, _, _ => false

/-- The number of so many digits, and what follows them. -/
def number? (count : Nat) (t : Text) : Option (Nat × Text) :=
  let digits := t.take count
  if digits.length = count ∧ digits.all Decimal.isDigit then
    some (Decimal.valueFrom 0 digits, t.drop count)
  else none

/-- The days of a month. -/
def daysOf (year month : Nat) : Nat :=
  if month = 2 then
    if year % 4 = 0 ∧ (year % 100 ≠ 0 ∨ year % 400 = 0) then 29 else 28
  else if month = 4 ∨ month = 6 ∨ month = 9 ∨ month = 11 then 30
  else 31

/-- What follows a date. -/
def afterDate? (t : Text) : Option Text := do
  let (year, rest) ← number? 4 t
  let rest ← Text.after? ['-'] rest
  let (month, rest) ← number? 2 rest
  let rest ← Text.after? ['-'] rest
  let (day, rest) ← number? 2 rest
  if 1 ≤ month ∧ month ≤ 12 ∧ 1 ≤ day ∧ day ≤ daysOf year month then some rest else none

/-- What follows hours and minutes. -/
def afterMinutes? (t : Text) : Option Text := do
  let (hour, rest) ← number? 2 t
  let rest ← Text.after? [':'] rest
  let (minute, rest) ← number? 2 rest
  if hour ≤ 23 ∧ minute ≤ 59 then some rest else none

/-- What follows a time of day, with seconds and perhaps parts of one. -/
def afterTime? (t : Text) : Option Text := do
  let rest ← afterMinutes? t
  let rest ← Text.after? [':'] rest
  let (second, rest) ← number? 2 rest
  if 60 < second then none
  else
    match rest with
    | '.' :: parts =>
      if parts.takeWhile Decimal.isDigit = [] then none
      else some (parts.dropWhile Decimal.isDigit)
    | _ => some rest

/-- A time offset, or nothing. -/
def isOffset : Text → Bool
  | [] => true
  | ['Z'] => true
  | ['z'] => true
  | c :: rest => (c = '+' || c = '-') && afterMinutes? rest = some []

/-- The text is a time of day with an offset or without. -/
def isTimeWithOffset (t : Text) : Bool :=
  match afterTime? t with
  | some rest => isOffset rest
  | none => false

/-- The word is a date and nothing else. -/
def isDate (word : Text) : Bool := afterDate? word = some []

/-- The word is a date, a time, or a date with a time after the letter T. -/
def isMoment (word : Text) : Bool :=
  match afterDate? word with
  | some [] => true
  | some (c :: rest) => (c = 'T' || c = 't') && isTimeWithOffset rest
  | none => afterTime? word = some []

/-- **The value of a word.** -/
def ofWord? (word : Text) : Option Toml :=
  if word = "true".toList then some (.boolean true)
  else if word = "false".toList then some (.boolean false)
  else if isMoment word then some (.moment word)
  else if isFloat word then some (.float word)
  else (integer? word).map .integer

end Scalar
end Toml
end NotebookTidy
