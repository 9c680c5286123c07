import NotebookTidy.Text.Decimal

/-!
# Octets and text

Files and standard streams hold octets.  `Utf8.pieces` cuts a list of octets into the characters
they spell and the **faulty parts** between them, by a machine that holds the sequence it is
inside of, if any: which octets may come next, and how many.  The strict reading (`decode`) stops
at the first faulty part and says where it is; the lenient reading (`decodeLossy`) puts one
replacement character in the place of each.

A faulty part is as long as it could still have become a character: an octet that cannot continue
a sequence ends the part before it and is looked at afresh.
-/

namespace NotebookTidy

/-- What a file or a stream holds. -/
abbrev Octets := List UInt8

namespace Utf8

/-- A sequence under way: the octets seen, those still to come, the range of the next one, and
the value so far. -/
structure Partial where
  /-- Octets read. -/
  seen : Nat
  /-- Octets that are still missing, at least one. -/
  missing : Nat
  /-- The least octet that may come next. -/
  low : Nat
  /-- The greatest octet that may come next. -/
  high : Nat
  /-- The bits read so far. -/
  value : Nat
deriving Repr, DecidableEq

/-- A part of a list of octets. -/
inductive Piece where
  /-- A character and the number of octets that spell it. -/
  | char (c : Char) (size : Nat)
  /-- Octets that no continuation makes a character. -/
  | faulty (size : Nat)
  /-- A sequence that the end of the input cuts short. -/
  | cutShort (size : Nat)
deriving Repr, DecidableEq

/-- What the first octet of a sequence says. -/
inductive Lead where
  /-- A character by itself. -/
  | whole (c : Char)
  /-- The start of a longer sequence. -/
  | start (p : Partial)
  /-- No sequence starts so. -/
  | faulty

/-- The table of first octets.  The ranges of the second octet exclude overlong spellings,
surrogates and what lies above the last character. -/
def lead (b : Nat) : Lead :=
  if b < 0x80 then .whole (Char.ofNat b)
  else if b < 0xC2 then .faulty
  else if b < 0xE0 then .start ⟨1, 1, 0x80, 0xBF, b - 0xC0⟩
  else if b = 0xE0 then .start ⟨1, 2, 0xA0, 0xBF, 0⟩
  else if b = 0xED then .start ⟨1, 2, 0x80, 0x9F, 0xD⟩
  else if b < 0xF0 then .start ⟨1, 2, 0x80, 0xBF, b - 0xE0⟩
  else if b = 0xF0 then .start ⟨1, 3, 0x90, 0xBF, 0⟩
  else if b < 0xF4 then .start ⟨1, 3, 0x80, 0xBF, b - 0xF0⟩
  else if b = 0xF4 then .start ⟨1, 3, 0x80, 0x8F, 4⟩
  else .faulty

/-- The characters and faulty parts of a list of octets, from inside a sequence or outside. -/
def piecesFrom : Option Partial → Octets → List Piece
  | none, [] => []
  | some p, [] => [.cutShort p.seen]
  | none, b :: rest =>
    match lead b.toNat with
    | .whole c => .char c 1 :: piecesFrom none rest
    | .start p => piecesFrom (some p) rest
    | .faulty => .faulty 1 :: piecesFrom none rest
  | some p, b :: rest =>
    if p.low ≤ b.toNat ∧ b.toNat ≤ p.high then
      let value := 64 * p.value + (b.toNat - 0x80)
      if p.missing ≤ 1 then .char (Char.ofNat value) (p.seen + 1) :: piecesFrom none rest
      else piecesFrom (some ⟨p.seen + 1, p.missing - 1, 0x80, 0xBF, value⟩) rest
    else
      .faulty p.seen ::
        match lead b.toNat with
        | .whole c => .char c 1 :: piecesFrom none rest
        | .start p => piecesFrom (some p) rest
        | .faulty => .faulty 1 :: piecesFrom none rest

/-- The characters and faulty parts of a list of octets. -/
def pieces (octets : Octets) : List Piece := piecesFrom none octets

/-- Why octets are not text: the first faulty part. -/
inductive Fault where
  /-- So many octets from this position on are no character. -/
  | invalid (size position : Nat)
  /-- The input ends inside the sequence that starts at this position. -/
  | incomplete (position : Nat)
deriving Repr, DecidableEq

/-- The wording of a fault. -/
def Fault.message : Fault → Text
  | .invalid size position =>
    "invalid utf-8 sequence of ".toList ++ Decimal.write size ++ " bytes from index ".toList ++
      Decimal.write position
  | .incomplete position =>
    "incomplete utf-8 byte sequence from index ".toList ++ Decimal.write position

/-- The text of pieces that start at a position, or the first fault among them. -/
def textFrom (position : Nat) : List Piece → Except Fault Text
  | [] => .ok []
  | .char c size :: rest => (textFrom (position + size) rest).map (c :: ·)
  | .faulty size :: _ => .error (.invalid size position)
  | .cutShort _ :: _ => .error (.incomplete position)

/-- The text that octets spell. -/
def decode (octets : Octets) : Except Fault Text := textFrom 0 (pieces octets)

/-- The replacement character. -/
def replacement : Char := '\uFFFD'

/-- The text that octets spell, with one replacement character for each faulty part. -/
def decodeLossy (octets : Octets) : Text :=
  (pieces octets).map fun
    | .char c _ => c
    | .faulty _ => replacement
    | .cutShort _ => replacement

/-- The octets that spell a text. -/
def encode (t : Text) : Octets := t.flatMap String.utf8EncodeChar

end Utf8
end NotebookTidy
