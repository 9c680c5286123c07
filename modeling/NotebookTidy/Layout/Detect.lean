import NotebookTidy.Layout.Basic

/-!
# Telling a document's layout

A layout is guessed from the text of a document and not from its value.  The guess looks at few
places: the text before the final blanks has a line feed or it is one line; after its first line
feed stands one level of indent; on one line, the first colon outside a string shows whether
separators are spaced; and a document that keeps to ASCII although it holds a `\u` is taken to
escape on purpose.
-/

namespace NotebookTidy
namespace Layout

/-- Where the search for the first separator stands. -/
inductive SeparatorSearch where
  /-- Outside strings. -/
  | outside
  /-- Inside a string. -/
  | inside
  /-- Inside a string, after a backslash. -/
  | escaped
deriving Repr, DecidableEq

/-- What follows the first colon outside strings, if there is one. -/
def afterSeparator? : SeparatorSearch → Text → Option Text
  | _, [] => none
  | .outside, c :: rest =>
    if c = '"' then afterSeparator? .inside rest
    else if c = ':' then some rest
    else afterSeparator? .outside rest
  | .inside, c :: rest =>
    if c = '\\' then afterSeparator? .escaped rest
    else if c = '"' then afterSeparator? .outside rest
    else afterSeparator? .inside rest
  | .escaped, _ :: rest => afterSeparator? .inside rest

/-- The first colon outside strings is followed by a space. -/
def hasSpacedSeparator (t : Text) : Bool :=
  match afterSeparator? .outside t with
  | some (' ' :: _) => true
  | _ => false

/-- The spaces and tabs after the first line feed, if there is a line feed. -/
def indentAfterFirstLine? : Text → Option Text
  | [] => none
  | c :: rest =>
    if c = '\n' then some (rest.takeWhile fun d => d = ' ' || d = '\t')
    else indentAfterFirstLine? rest

/-- The layout that a document's text shows. -/
def detect (document : Text) : Layout :=
  let body := document.dropWhile (· = markChar)
  let trimmed := Text.trimEnd body
  let indent := indentAfterFirstLine? trimmed
  { indent
    lineEnding :=
      if Text.contains ['\r', '\n'] trimmed || Text.endsWith ['\r', '\n'] body then .crlf else .lf
    spacedSeparators := indent.isNone && hasSpacedSeparator trimmed
    asciiOnly := Text.isAscii body && Text.contains ['\\', 'u'] body
    byteOrderMark := document.head? = some markChar
    finalLineEnd := Text.endsWith ['\n'] body }

end Layout
end NotebookTidy
