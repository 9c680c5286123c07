import NotebookTidy.Text.Search

/-!
# Paths

A **path** is a text with names between slashes, as a user or a link gives it; a **location** is
a place below the root, the list of names that lead there.  A path means a location only through a
file system, which knows the links; what can be said about a path by itself is here: its names,
the name it ends in, and the directory it names something in.
-/

namespace NotebookTidy

/-- A place below the root, by the names that lead there. -/
abbrev Location := List Text

/-- The path of a location from the root. -/
def Location.path (location : Location) : Text :=
  if location = [] then ['/'] else location.flatMap fun name => '/' :: name

namespace Path

/-- The name of the directory itself. -/
def here : Text := ['.']

/-- The name of the directory above. -/
def above : Text := ['.', '.']

/-- The path starts at the root. -/
def isAbsolute (path : Text) : Bool := path.head? = some '/'

/-- The path ends in a slash. -/
def endsInSlash (path : Text) : Bool := path.getLast? = some '/'

/-- The names between the slashes. -/
def names (path : Text) : List Text := (Text.splitAt '/' path).filter (· ≠ [])

/-- The steps that a path asks for.  A slash at the end asks for a directory, by an empty name. -/
def steps (path : Text) : List Text :=
  names path ++ (if endsInSlash path then [[]] else [])

/-- The last name, unless it is a step to a directory itself or upwards. -/
def lastName? (path : Text) : Option Text :=
  match (names path).getLast? with
  | some name => if name = here ∨ name = above then none else some name
  | none => none

/-- The names that are more than a repetition of the directory they stand in. -/
def parts (path : Text) : List Text := (names path).filter (· ≠ here)

/-- The name that the path ends in, unless it ends in a step upwards. -/
def fileName? (path : Text) : Option Text :=
  match (parts path).getLast? with
  | some name => if name = above then none else some name
  | none => none

/-- A name's part before its last dot and the part after it.  A dot at the start does not count. -/
def splitExtension? (name : Text) : Option (Text × Text) :=
  let after := (name.reverse.takeWhile (· ≠ '.')).reverse
  match name.reverse.dropWhile (· ≠ '.') with
  | _ :: c :: before => some ((c :: before).reverse, after)
  | _ => none

/-- The extension of notebook files. -/
def notebookExtension : Text := "ipynb".toList

/-- **The path names a notebook**: the name it ends in has the extension of notebooks. -/
def isNotebook (path : Text) : Bool :=
  match (fileName? path).bind splitExtension? with
  | some (_, extension) => extension = notebookExtension
  | none => false

/-- What stands between slashes and leads nowhere: nothing, or the directory's name for itself. -/
def isIdle (piece : Text) : Bool := piece = [] || piece = here

/-- The path of the directory that a path names something in: the part of the path before its last
name. -/
def directory (path : Text) : Text :=
  let pieces := (Text.splitAt '/' path).reverse.dropWhile isIdle
  let above := ((pieces.drop 1).dropWhile isIdle).reverse
  if above = [] then (if isAbsolute path && pieces ≠ [] then ['/'] else here)
  else Text.intercalate ['/'] above

/-- A path seen from the directory of another. -/
def join (base path : Text) : Text :=
  if isAbsolute path then path
  else if base = [] || endsInSlash base then base ++ path
  else base ++ '/' :: path

end Path
end NotebookTidy
