import NotebookTidy.Directive.Segments
import NotebookTidy.Formatter.Basic
import NotebookTidy.Text.Fragment

/-!
# The spacing formatter

A small formatter that is always there.  It knows no grammar and works line by line: the first
assignment sign outside brackets gets one space on each side, blanks at line ends go, and so do
empty lines at both ends of the code.  A line that starts with a directive mark, or that holds an
opening parenthesis before a colon, is refused as code that cannot be parsed.  Code that names
`raise_formatter_crash` makes the formatter fail, which is how a failing formatter is tried out.
-/

namespace NotebookTidy
namespace Spacing

/-- The name that makes the formatter fail. -/
def crashWord : Text := "raise_formatter_crash".toList

/-- A line that cannot be parsed. -/
def isFaulty (line : Text) : Bool :=
  (match Text.trimStart line with
    | [] => false
    | c :: _ => directiveMarks.contains c) || Text.contains ['(', ':'] line

/-- The first faulty line among lines of which the first has a number. -/
def firstFault? (number : Nat) : List Text → Option (Nat × Text)
  | [] => none
  | line :: rest => if isFaulty line then some (number, line) else firstFault? (number + 1) rest

/-- A character that makes a comparison of the equals sign after it. -/
def isComparison (c : Char) : Bool := c = '<' || c = '>' || c = '!' || c = '='

/-- The parts of a line before and after the assignment sign that is to be spaced.  The scan goes
on with the characters read so far (the last one first) and the number of open brackets; it gives
up at a quote, at a comment, and at a comparison sign.

The number of open brackets has no bound here, which is an idealisation: counted in 32 bits with a
sign, it overflows on a line with 2^31 open brackets. -/
def assignment? (read : Text) (depth : Int) : Text → Option (Text × Text)
  | [] => none
  | c :: rest =>
    if c = '(' ∨ c = '[' ∨ c = '{' then assignment? (c :: read) (depth + 1) rest
    else if c = ')' ∨ c = ']' ∨ c = '}' then assignment? (c :: read) (depth - 1) rest
    else if c = '"' ∨ c = '\'' ∨ c = '#' then none
    else if c = '=' ∧ depth = 0 then
      if read.head?.any isComparison ∨ rest.head? = some '=' then none
      else some (read.reverse, rest)
    else assignment? (c :: read) depth rest

/-- A line without blanks at its end and with its assignment sign spaced. -/
def spaceLine (line : Text) : Text :=
  let line := Text.trimEnd line
  match assignment? [] 0 line with
  | some (left, right) => Text.trimEnd left ++ [' ', '=', ' '] ++ Text.trimStart right
  | none => line

/-- Lines without the empty ones at both ends. -/
def trimLines (lines : List Text) : List Text :=
  ((lines.dropWhile (· = [])).reverse.dropWhile (· = [])).reverse

/-- Lines as code: a line feed after each. -/
def ofLines (lines : List Text) : Text := lines.flatMap (· ++ ['\n'])

/-- The wording of the refusal of a line. -/
def faultMessage (number : Nat) (line : Text) : Text :=
  "Cannot parse: ".toList ++ Decimal.write number ++ ":0: ".toList ++ line

/-- **The spacing formatter** on a source. -/
def format (source : Text) : Formatted :=
  if Text.contains crashWord source then
    .error (.failed (some 1) "error: cannot format -: INTERNAL ERROR".toList)
  else
    match firstFault? 1 (Text.lines source) with
    | some (number, line) => .error (.cannotParse (faultMessage number line) (some line))
    | none => .ok (ofLines (trimLines ((Text.lines source).map spaceLine)))

/-- The spacing formatter's answer to a request; it takes no notice of the mode. -/
def answer (call : Call) : Formatted := format call.source

/-- The spacing formatter. -/
def formatter : Formatter := .ofFunction answer

end Spacing

namespace Formatter

/-- The formatter that leaves code as it is. -/
def identity : Formatter := .ofFunction fun call => .ok call.source

/-- A truth value as a word. -/
def boolText : Bool → Text
  | true => "true".toList
  | false => "false".toList

/-- The formatter that answers with a comment on the mode it was asked in. -/
def describingMode : Formatter := .ofFunction fun call =>
  .ok ("# ".toList ++ Decimal.write call.mode.lineLength ++ [' '] ++
    boolText call.mode.stringNormalization ++ " [".toList ++
    Text.intercalate [','] (call.mode.targetVersions.members.map TargetVersion.name) ++
    "] ".toList ++
    boolText call.mode.isStub ++ ['\n'])

end Formatter
end NotebookTidy
