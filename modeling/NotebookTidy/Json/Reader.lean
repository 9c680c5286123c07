import NotebookTidy.Json.Token
import NotebookTidy.Json.Value

/-!
# Reading a document's value

The value of a list of tokens, built by a machine with a stack.  The stack holds the arrays and
objects that are open, each with what it has got so far; the state says what may come next.  A
key that comes again keeps its first place and takes its last value, and no more than
`nestingLimit` arrays and objects may be open at once.

An object whose first key is `Number.longFormKey` is a number in its long form: a string with a
numeral must be its only value.  As a later key it is a key like any other.

The machine reads each token once and never looks back, so what it makes of one list of tokens
after another is what it makes of them side by side.
-/

namespace NotebookTidy
namespace Json

/-- How many arrays and objects may be open at once. -/
def nestingLimit : Nat := 127

/-- An open array or object around the place of the reading. -/
inductive Frame where
  /-- An array with the items so far, the last one first. -/
  | array (items : List Json)
  /-- An object with the members so far, waiting for the value of a key. -/
  | object (members : Members) (key : Text)
deriving Repr, DecidableEq

/-- What may come next. -/
inductive Expectation where
  /-- A value. -/
  | value
  /-- A first item, or the end of the array that has just been opened. -/
  | firstItem
  /-- A first key, or the end of the object that has just been opened. -/
  | firstKey
  /-- A later key, of the object with these members. -/
  | key (members : Members)
  /-- The colon after a key. -/
  | colon (members : Members) (key : Text)
  /-- The colon after the key of a number's long form. -/
  | numeralColon
  /-- The string of a number's long form. -/
  | numeral
  /-- The end of a number's long form. -/
  | numeralEnd (value : Number)
  /-- What can follow this value. -/
  | complete (value : Json)
deriving Repr, DecidableEq

/-- The state of the reading. -/
structure Building where
  /-- The open arrays and objects, the innermost first. -/
  stack : List Frame
  /-- What may come next. -/
  next : Expectation
deriving Repr, DecidableEq

namespace Building

/-- The start of a value at the place of the reading. -/
def start (stack : List Frame) : Token → Option Building
  | .null => some ⟨stack, .complete .null⟩
  | .boolean b => some ⟨stack, .complete (.boolean b)⟩
  | .number n => some ⟨stack, .complete (.number n)⟩
  | .literal pieces => (Literal.text? pieces).map fun t => ⟨stack, .complete (.string t)⟩
  | .openArray => if stack.length < nestingLimit then some ⟨stack, .firstItem⟩ else none
  | .openObject => if stack.length < nestingLimit then some ⟨stack, .firstKey⟩ else none
  | _ => none

/-- A first key, which tells a number in its long form from an object. -/
def startFirstKey (stack : List Frame) : Token → Option Building
  | .literal pieces => (Literal.text? pieces).map fun key =>
    ⟨stack, if key = Number.longFormKey then .numeralColon else .colon [] key⟩
  | _ => none

/-- A later key, of the object with these members. -/
def startKey (stack : List Frame) (members : Members) : Token → Option Building
  | .literal pieces => (Literal.text? pieces).map fun key => ⟨stack, .colon members key⟩
  | _ => none

/-- The string of a number's long form: a numeral and nothing else. -/
def startNumeral (stack : List Frame) : Token → Option Building
  | .literal pieces =>
    ((Literal.text? pieces).bind Number.ofText?).map fun n => ⟨stack, .numeralEnd n⟩
  | _ => none

/-- A value is complete in the innermost open array or object, and a token follows. -/
def close (value : Json) : List Frame → Token → Option Building
  | .array items :: stack, .comma => some ⟨.array (value :: items) :: stack, .value⟩
  | .array items :: stack, .closeArray =>
    some ⟨stack, .complete (.array (value :: items).reverse)⟩
  | .object members key :: stack, .comma => some ⟨stack, .key (Members.set key value members)⟩
  | .object members key :: stack, .closeObject =>
    some ⟨stack, .complete (.object (Members.set key value members))⟩
  | _, _ => none

/-- One token more, or nothing if it may not come here. -/
def step (b : Building) (token : Token) : Option Building :=
  match b.next with
  | .value => start b.stack token
  | .firstItem =>
    if token = .closeArray then some ⟨b.stack, .complete (.array [])⟩
    else start (.array [] :: b.stack) token
  | .firstKey =>
    if token = .closeObject then some ⟨b.stack, .complete (.object [])⟩
    else startFirstKey b.stack token
  | .key members => startKey b.stack members token
  | .colon members key =>
    if token = .colon then some ⟨.object members key :: b.stack, .value⟩ else none
  | .numeralColon => if token = .colon then some ⟨b.stack, .numeral⟩ else none
  | .numeral => startNumeral b.stack token
  | .numeralEnd n =>
    if token = .closeObject then some ⟨b.stack, .complete (.number n)⟩ else none
  | .complete value => close value b.stack token

/-- The value, if it is complete and nothing is open. -/
def finish (b : Building) : Option Json :=
  match b.stack, b.next with
  | [], .complete value => some value
  | _, _ => none

end Building

/-- The value of a list of tokens. -/
def ofTokens? (tokens : List Token) : Option Json :=
  (tokens.foldlM Building.step ⟨[], .value⟩).bind Building.finish

/-- The value of a document. -/
def read? (t : Text) : Option Json := (Token.ofText? t).bind ofTokens?

end Json
end NotebookTidy
