import NotebookTidy.FileSystem.Action

/-!
# Setting up and listing a file system

Entries are put at paths one by one, with the directories on the way, get other permission bits and
are taken away again, as their owner may do it; and a file system is listed as names below a
directory, each marked with what kind of entry it is.
-/

namespace NotebookTidy
namespace FileSystem

/-- A file system with nothing in it, seen from the root. -/
def empty : FileSystem := ⟨[], []⟩

/-! ## Putting entries in place -/

/-- The location of a new entry that a path names.  Nothing may be there; a slash at the end of the
path is out of place if no directory is wanted. -/
def vacancy (fs : FileSystem) (path : Text) (wantsDirectory : Bool) : Except IoFault Location := do
  let (directory, name?) ← fs.parent path
  match name? with
  | none => .error .alreadyExists
  | some name =>
    if nameLimit < (Utf8.encode name).length then .error .nameTooLong
    else if fs.node? (directory ++ [name]) ≠ none then .error .alreadyExists
    else if Path.endsInSlash path && !wantsDirectory then .error .notFound
    else
      fs.permitChange directory
      .ok (directory ++ [name])

/-- The file system with a new directory at a path. -/
def makeDirectory (fs : FileSystem) (path : Text) : Except IoFault FileSystem := do
  let location ← fs.vacancy path true
  match fs.node? location.dropLast with
  | some (.directory bits) => .ok (fs.put location (.directory (Permission.ofSubdirectory bits)))
  | _ => .error .notADirectory

/-- The file system with a directory at a path, and with up to so many directories above it that
are missing.  A directory that is there is left as it is. -/
def makeDirectories (fs : FileSystem) (path : Text) : Nat → Except IoFault FileSystem
  | 0 => .error .notFound
  | missing + 1 =>
    let ifThere (fs : FileSystem) (fault : IoFault) : Except IoFault FileSystem :=
      if fs.isDirectory path then .ok fs else .error fault
    match fs.makeDirectory path with
    | .ok made => .ok made
    | .error .notFound => do
      let above ← fs.makeDirectories (Path.directory path) missing
      match above.makeDirectory path with
      | .ok made => .ok made
      | .error fault => ifThere above fault
    | .error fault => ifThere fs fault

/-- The file system with a directory at a path, and the directories on the way. -/
def installDirectory (fs : FileSystem) (path : Text) : Except IoFault FileSystem :=
  fs.makeDirectories path ((Path.parts path).length + 1)

/-- The location of the file that is written when a path is written to, seen from a directory.
Links are followed, so many of them at most, even if nothing is where the last one leads. -/
def landing (fs : FileSystem) (directory : Location) (path : Text) (links : Nat) :
    Except IoFault Location := do
  let start := if Path.isAbsolute path then [] else directory
  let steps := (Path.names path).dropLast ++ [Path.here]
  let (above, left) ← fs.walk start steps links
  match Path.lastName? path with
  | none => .error .isADirectory
  | some name =>
    if Path.endsInSlash path then .error .isADirectory
    else if nameLimit < (Utf8.encode name).length then .error .nameTooLong
    else
      match fs.node? (above ++ [name]) with
      | some (.link target) =>
        if _h : 0 < left ∧ left ≤ links then fs.landing above target (left - 1)
        else .error .linkLoop
      | _ => .ok (above ++ [name])
termination_by links

/-- The file system with a new content for the file that a path leads to, which is made if it is not
there. -/
def overwrite (fs : FileSystem) (path : Text) (content : Octets) : Except IoFault FileSystem := do
  accept path
  let location ← fs.landing fs.here path linkLimit
  match fs.node? location with
  | some (.file _ bits) =>
    if Permission.grants bits .write then
      .ok (fs.put location (.file content (Permission.afterChange bits)))
    else .error .permissionDenied
  | some _ => .error .isADirectory
  | none =>
    fs.permitChange location.dropLast
    .ok (fs.put location (.file content Permission.ofFile))

/-- The file system with a file at a path, and the directories on the way. -/
def installFile (fs : FileSystem) (path : Text) (content : Octets) :
    Except IoFault FileSystem := do
  let fs ← fs.installDirectory (Path.directory path)
  fs.overwrite path content

/-- The file system with a link at a path, and the directories on the way. -/
def installLink (fs : FileSystem) (path target : Text) : Except IoFault FileSystem := do
  let fs ← fs.installDirectory (Path.directory path)
  accept target
  let location ← fs.vacancy path false
  .ok (fs.put location (.link target))

/-! ## Changing and removing entries -/

/-- The file system with other permission bits for what a path leads to. -/
def changeBits (fs : FileSystem) (path : Text) (bits : Nat) : Except IoFault FileSystem := do
  let location ← fs.resolve path
  .ok (fs.setBits location (bits % Permission.bound))

/-- Everything below a location can be taken away: the directories there can be read, and changed
unless they are empty. -/
def isClearable (fs : FileSystem) (location : Location) : Bool :=
  fs.entries.all fun (inner, node) =>
    match node with
    | .directory _ =>
      !location.isPrefixOf inner ||
        (fs.allows inner .read &&
          ((fs.children inner).isEmpty || (fs.allows inner .write && fs.allows inner .search)))
    | _ => true

/-- The file system without the entry at a path, a link itself rather than what it leads to, and
without everything below it. -/
def uninstall (fs : FileSystem) (path : Text) : Except IoFault FileSystem := do
  let (directory, name?) ← fs.parent path
  match name? with
  | none => .error .busy
  | some name =>
    let location := directory ++ [name]
    if nameLimit < (Utf8.encode name).length then .error .nameTooLong
    else
      match fs.node? location with
      | none => .error .notFound
      | some (.directory _) =>
        if fs.isClearable location then
          fs.permitChange directory
          .ok (fs.eraseTree location)
        else .error .permissionDenied
      | some _ =>
        if Path.endsInSlash path then .error .notADirectory
        else
          fs.permitChange directory
          .ok (fs.erase location)

/-! ## Listing -/

/-- Everything below a directory can be listed: the directories there can be read, and searched for
the directories in them. -/
def isListable (fs : FileSystem) (directory : Location) : Bool :=
  fs.allows directory .read &&
    fs.entries.all fun (inner, node) =>
      match node with
      | .directory _ =>
        !directory.isPrefixOf inner || inner = directory ||
          (fs.allows inner .read && fs.allows inner.dropLast .search)
      | _ => true

/-- The names below a directory with their entries: a directory's name ends in a slash and a
link's in an at sign. -/
def listing (fs : FileSystem) (directory : Location) : Except IoFault (List (Text × Node)) :=
  if fs.isListable directory then
    .ok <| fs.entries.filterMap fun (location, node) =>
      match List.isPrefixOf? directory location with
      | none | some [] => none
      | some rest =>
        let name := Text.intercalate ['/'] rest
        some <| match node with
          | .file _ _ => (name, node)
          | .directory _ => (name ++ ['/'], node)
          | .link _ => (name ++ ['@'], node)
  else .error .permissionDenied

end FileSystem
end NotebookTidy
