import NotebookTidy.Toml.Scalar

/-!
# Reading a configuration document

A configuration document is a list of lines: headers, keys with values, blanks and comments.
Strings come in four kinds, in one kind of quote or the other, on one line or on several; only
double quotes know escapes.  Arrays may go over lines and hold comments, inline tables may not.

The functions here take what they read off the front of a text.  A loop takes a bound on its
rounds.  A round takes at least one character, and a value inside another at least one bracket, so
the length of the text is bound enough.
-/

namespace NotebookTidy
namespace Toml

/-- What is read off the front of a text, if anything fits. -/
abbrev Scanner := StateT Text Option

namespace Scanner

/-- The next character, which stays. -/
def peek : Scanner (Option Char) := fun t => some (t.head?, t)

/-- A word that must come next. -/
def expect (word : Text) : Scanner Unit := fun t => (Text.after? word t).map ((), ·)

/-- The longest run of characters of a kind. -/
def run (kind : Char → Bool) : Scanner Text := fun t => some (t.takeWhile kind, t.dropWhile kind)

/-- A word, if it comes next. -/
def optional (word : Text) : Scanner Bool := fun t =>
  match Text.after? word t with
  | some rest => some (true, rest)
  | none => some (false, t)

/-- How many characters are left. -/
def remaining : Scanner Nat := fun t => some (t.length, t)

end Scanner

open Scanner

/-! ## Blanks and line ends -/

/-- The blanks of a line. -/
def isSpace (c : Char) : Bool := c = ' ' || c = '\t'

/-- A character that may stand in a comment or a string: no control but the tab. -/
def isPlain (c : Char) : Bool := c = '\t' || (0x20 ≤ c.toNat && c.toNat ≠ 0x7F)

/-- What follows a line end. -/
def afterLineEnd? : Text → Option Text
  | '\n' :: rest => some rest
  | '\r' :: '\n' :: rest => some rest
  | _ => none

/-- The end of a line with nothing but blanks and a comment before it. -/
def restOfLine : Scanner Unit := do
  let _ ← run isSpace
  if ← optional ['#'] then let _ ← run isPlain
  fun
    | [] => some ((), [])
    | t => (afterLineEnd? t).map ((), ·)

/-- Blanks, comments and line ends. -/
def skipLines : Nat → Scanner Unit
  | 0 => pure ()
  | rounds + 1 => do
    let _ ← run isSpace
    if ← optional ['#'] then let _ ← run isPlain
    fun t =>
      match afterLineEnd? t with
      | some rest => skipLines rounds rest
      | none => some ((), t)

/-! ## Strings -/

/-- The character of an escape by its number, so many digits long. -/
def numbered (count : Nat) : Scanner Char := fun t =>
  let digits := t.take count
  if digits.length < count then none
  else
    match Hexadecimal.read? digits with
    | some n => if n.isValidChar then some (Char.ofNat n, t.drop count) else none
    | none => none

/-- The character of an escape, after the backslash. -/
def escape : Scanner Char
  | 'b' :: rest => some ('\x08', rest)
  | 't' :: rest => some ('\t', rest)
  | 'n' :: rest => some ('\n', rest)
  | 'f' :: rest => some ('\x0c', rest)
  | 'r' :: rest => some ('\r', rest)
  | '"' :: rest => some ('"', rest)
  | '\\' :: rest => some ('\\', rest)
  | 'u' :: rest => numbered 4 rest
  | 'U' :: rest => numbered 8 rest
  | _ => none

/-- The rest of a string on one line, after its opening quote. -/
def lineString (quote : Char) : Nat → Scanner Text
  | 0 => failure
  | rounds + 1 => fun
    | [] => none
    | c :: rest =>
      if c = quote then some ([], rest)
      else if c = '\\' ∧ quote = '"' then
        (do let d ← escape; let t ← lineString quote rounds; pure (d :: t) : Scanner Text) rest
      else if isPlain c then
        (do let t ← lineString quote rounds; pure (c :: t) : Scanner Text) rest
      else none

/-- The text without the blanks and line ends at its start. -/
def dropBlankLines : Text → Text
  | ' ' :: rest => dropBlankLines rest
  | '\t' :: rest => dropBlankLines rest
  | '\n' :: rest => dropBlankLines rest
  | '\r' :: '\n' :: rest => dropBlankLines rest
  | rest => rest

/-- A backslash at the end of a line: what follows it and all blanks and line ends after it. -/
def afterContinuation? (t : Text) : Option Text :=
  (afterLineEnd? (t.dropWhile isSpace)).map dropBlankLines

/-- The rest of a string on several lines, after its opening quotes.  Up to two quotes may stand
anywhere, also right before the three that close the string. -/
def blockString (quote : Char) : Nat → Scanner Text
  | 0 => failure
  | rounds + 1 => fun
    | [] => none
    | c :: rest =>
      if c = quote then
        let quotes := ((c :: rest).takeWhile (· = quote))
        let after := (c :: rest).dropWhile (· = quote)
        if quotes.length < 3 then
          (do let t ← blockString quote rounds; pure (quotes ++ t) : Scanner Text) after
        else if quotes.length ≤ 5 then some (quotes.drop 3, after)
        else none
      else if c = '\\' ∧ quote = '"' then
        match afterContinuation? rest with
        | some after => blockString quote rounds after
        | none =>
          (do let d ← escape; let t ← blockString quote rounds; pure (d :: t) : Scanner Text) rest
      else
        match afterLineEnd? (c :: rest) with
        | some after =>
          (do let t ← blockString quote rounds; pure ('\n' :: t) : Scanner Text) after
        | none =>
          if isPlain c then
            (do let t ← blockString quote rounds; pure (c :: t) : Scanner Text) rest
          else none

/-- A string in one kind of quote, on one line or on several. -/
def quoted (quote : Char) : Scanner Text := do
  let rounds ← remaining
  if ← optional [quote, quote, quote] then
    fun t => blockString quote rounds ((afterLineEnd? t).getD t)
  else
    expect [quote]
    lineString quote rounds

/-! ## Keys -/

/-- A character of a key without quotes. -/
def isKeyChar (c : Char) : Bool := c.isAlphanum || c = '_' || c = '-'

/-- One part of a key. -/
def keyPart : Scanner Text := do
  match ← peek with
  | some '"' => expect ['"']; lineString '"' (← remaining)
  | some '\'' => expect ['\'']; lineString '\'' (← remaining)
  | _ =>
    let word ← run isKeyChar
    if word = [] then failure else pure word

/-- The parts of a key, with blanks around the dots between them. -/
def keyParts : Nat → Scanner (List Text)
  | 0 => failure
  | rounds + 1 => do
    let _ ← run isSpace
    let part ← keyPart
    let _ ← run isSpace
    if ← optional ['.'] then
      let parts ← keyParts rounds
      pure (part :: parts)
    else pure [part]

/-- How deep values may be nested, and how many parts a key may have. -/
def depthLimit : Nat := 80

/-- A key of one or more parts. -/
def key : Scanner (List Text) := do
  let parts ← keyParts (← remaining)
  if parts.length < depthLimit then pure parts else failure

/-! ## Values -/

/-- A word and its value; a time may follow a date after a single space. -/
def word : Scanner Toml := do
  let first ← run Scalar.isWordChar
  fun t =>
    match t with
    | ' ' :: c :: rest =>
      if Scalar.isDate first && Decimal.isDigit c then
        let time := (c :: rest).takeWhile Scalar.isWordChar
        if Scalar.isTimeWithOffset time then
          some (.moment (first ++ ' ' :: time), (c :: rest).dropWhile Scalar.isWordChar)
        else none
      else (Scalar.ofWord? first).map (·, t)
    | _ => (Scalar.ofWord? first).map (·, t)

mutual

/-- A value inside so many arrays and inline tables. -/
def value (depth : Nat) : Nat → Scanner Toml
  | 0 => failure
  | rounds + 1 => do
    match ← peek with
    | some '"' => .string <$> quoted '"'
    | some '\'' => .string <$> quoted '\''
    | some '[' =>
      if depth + 1 < depthLimit then
        expect ['[']
        .array <$> items (depth + 1) rounds
      else failure
    | some '{' =>
      if depth + 1 < depthLimit then
        expect ['{']
        let _ ← run isSpace
        if ← optional ['}'] then pure (.table .inline [])
        else .table .inline <$> members (depth + 1) [] rounds
      else failure
    | _ => word

/-- The items of an array up to its end. -/
def items (depth : Nat) : Nat → Scanner (List Toml)
  | 0 => failure
  | rounds + 1 => do
    skipLines (← remaining)
    if ← optional [']'] then pure []
    else
      let first ← value depth rounds
      skipLines (← remaining)
      if ← optional [','] then
        let rest ← items depth rounds
        pure (first :: rest)
      else
        expect [']']
        pure [first]

/-- The members of an inline table, added to those before them, up to its end. -/
def members (depth : Nat) (before : Table) : Nat → Scanner Table
  | 0 => failure
  | rounds + 1 => do
    let path ← key
    expect ['=']
    let _ ← run isSpace
    let v ← value depth rounds
    let _ ← run isSpace
    match before.assignPath? path v with
    | none => failure
    | some after =>
      if ← optional [','] then members depth after rounds
      else
        expect ['}']
        pure after

end

/-! ## Documents -/

/-- The document so far: all tables, and the path of the header that is in force. -/
structure Progress where
  /-- The table of the whole document. -/
  root : Table
  /-- The path of the table that keys belong to. -/
  path : List Text

/-- A header, after its opening bracket. -/
def header (p : Progress) : Scanner Progress := do
  let isArray ← optional ['[']
  let path ← key
  expect (if isArray then [']', ']'] else [']'])
  restOfLine
  match path.getLast? with
  | none => failure
  | some last =>
    let opened :=
      if isArray then p.root.openNext? path.dropLast last
      else p.root.openTable? path.dropLast last
    match opened with
    | some root => pure ⟨root, path⟩
    | none => failure

/-- A key with its value. -/
def keyValue (p : Progress) : Scanner Progress := do
  let path ← key
  expect ['=']
  let _ ← run isSpace
  let v ← value 0 (2 * (← remaining) + 2)
  restOfLine
  match Table.alterAt? (Table.assignPath? path v) p.path p.root with
  | some root => pure ⟨root, p.path⟩
  | none => failure

/-- The lines of a document. -/
def lines (p : Progress) : Nat → Scanner Progress
  | 0 => failure
  | rounds + 1 => do
    let _ ← run isSpace
    match ← peek with
    | none => pure p
    | some '[' => expect ['[']; let p ← header p; lines p rounds
    | some c =>
      if c = '#' ∨ c = '\n' ∨ c = '\r' then restOfLine; lines p rounds
      else let p ← keyValue p; lines p rounds

/-- **The table of a document.** -/
def read? (document : Text) : Option Table :=
  let text := (Text.after? ['\uFEFF'] document).getD document
  (lines ⟨[], []⟩ (text.length + 1) text).map fun (p, _) => p.root

end Toml
end NotebookTidy
