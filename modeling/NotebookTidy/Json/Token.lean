import NotebookTidy.Json.Literal
import NotebookTidy.Json.Number

/-!
# The tokens of a document

A document is cut into tokens by a machine that reads it character by character and is between
tokens, inside a **bare** word (a number or one of the three names), or inside a string, at an
escape or among the digits of one.  A bare word is the longest run of characters that no blank,
bracket, comma, colon or quote interrupts; it has to be a number or a name as a whole.

Strings stay lists of pieces here: whether the halves of characters fit together is asked later,
and which strings were written with `\u` escapes can still be seen.
-/

namespace NotebookTidy

/-- A token of a document. -/
inductive Token where
  | openArray
  | closeArray
  | openObject
  | closeObject
  | comma
  | colon
  | null
  | boolean (value : Bool)
  | number (value : Number)
  | literal (pieces : List Literal.Piece)
deriving Repr, DecidableEq

namespace Token

/-- Where in a token the reading stands. -/
inductive Place where
  /-- Between tokens. -/
  | between
  /-- In a bare word; its characters so far, the last one first. -/
  | bare (run : Text)
  /-- Between quotes; the pieces so far, the last one first. -/
  | quoted (pieces : List Literal.Piece)
  /-- After a backslash. -/
  | escaped (pieces : List Literal.Piece)
  /-- After `\u`; the digits so far and their value. -/
  | unit (pieces : List Literal.Piece) (digits value : Nat)
deriving Repr, DecidableEq

/-- The state of the reading: the tokens so far, the last one first, and the place. -/
structure Reading where
  /-- The tokens that are complete, the last one first. -/
  tokens : List Token
  /-- The place in the token under way. -/
  place : Place
deriving Repr, DecidableEq

/-- The blanks of a document. -/
def isSpace (c : Char) : Bool := c = ' ' || c = '\t' || c = '\n' || c = '\r'

/-- The token of a bracket, comma or colon. -/
def ofMark? : Char → Option Token
  | '[' => some .openArray
  | ']' => some .closeArray
  | '{' => some .openObject
  | '}' => some .closeObject
  | ',' => some .comma
  | ':' => some .colon
  | _ => none

/-- The token of a bare word. -/
def ofBare? (word : Text) : Option Token :=
  if word = "null".toList then some .null
  else if word = "true".toList then some (.boolean true)
  else if word = "false".toList then some (.boolean false)
  else (Number.ofText? word).map .number

/-- A character that ends a bare word, read between tokens: a blank, a mark or a quote. -/
def delimiter? (tokens : List Token) (c : Char) : Option Reading :=
  if isSpace c then some ⟨tokens, .between⟩
  else if c = '"' then some ⟨tokens, .quoted []⟩
  else (ofMark? c).map fun token => ⟨token :: tokens, .between⟩

/-- One character more, or nothing if no token can hold it. -/
def step (r : Reading) (c : Char) : Option Reading :=
  match r.place with
  | .between =>
    match delimiter? r.tokens c with
    | some next => some next
    | none => some ⟨r.tokens, .bare [c]⟩
  | .bare run =>
    match delimiter? r.tokens c with
    | some _ => (ofBare? run.reverse).bind fun token => delimiter? (token :: r.tokens) c
    | none => some ⟨r.tokens, .bare (c :: run)⟩
  | .quoted pieces =>
    if c = '"' then some ⟨.literal pieces.reverse :: r.tokens, .between⟩
    else if c = '\\' then some ⟨r.tokens, .escaped pieces⟩
    else if c.toNat < 0x20 then none
    else some ⟨r.tokens, .quoted (.char c :: pieces)⟩
  | .escaped pieces =>
    if c = 'u' then some ⟨r.tokens, .unit pieces 0 0⟩
    else (Literal.shortEscape? c).map fun d => ⟨r.tokens, .quoted (.char d :: pieces)⟩
  | .unit pieces digits value =>
    (Hexadecimal.value? c).map fun d =>
      if digits < 3 then ⟨r.tokens, .unit pieces (digits + 1) (16 * value + d)⟩
      else ⟨r.tokens, .quoted (.unit (16 * value + d) :: pieces)⟩

/-- The tokens at the end of a document, which must not stand inside a string. -/
def finish (r : Reading) : Option (List Token) :=
  match r.place with
  | .between => some r.tokens.reverse
  | .bare run => (ofBare? run.reverse).map fun token => (token :: r.tokens).reverse
  | _ => none

/-- The tokens of a document. -/
def ofText? (t : Text) : Option (List Token) :=
  (t.foldlM step ⟨[], .between⟩).bind finish

/-- The token is a string written with a `\u` escape. -/
def hasUnitEscape : Token → Bool
  | .literal pieces => pieces.any fun
    | .unit _ => true
    | .char _ => false
  | _ => false

end Token
end NotebookTidy
