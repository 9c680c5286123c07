import NotebookTidy.FileSystem.Basic

/-!
# Actions on a file system

The single steps by which a file is replaced: a temporary file is made, written, brought to the
disk, given the permission bits that were looked up, and put in the place of another; or removed.
An action either takes place and has an answer (`DiskAction.Answer`), or fails and changes nothing.

A new temporary file must not meet an entry that is there; it is given a name longer than every
other name.  Its path has to keep to the limits all the same, and there its name counts as ten
octets, whatever it is.
-/

namespace NotebookTidy

/-- A step that changes files, or looks at one. -/
inductive DiskAction where
  /-- A new empty file in the directory that a path leads to. -/
  | createTemporary (directory : Text)
  /-- New content for the file at a location. -/
  | write (location : Location) (content : Octets)
  /-- The content of the file at a location is brought to the disk. -/
  | sync (location : Location)
  /-- The permission bits of what a path leads to are looked up. -/
  | lookUp (path : Text)
  /-- The file at a location gets other permission bits. -/
  | setBits (location : Location) (bits : Nat)
  /-- The file at a location becomes what a path names. -/
  | rename (location : Location) (path : Text)
  /-- The file at a location is no more. -/
  | remove (location : Location)
deriving Repr, DecidableEq

/-- What an action that takes place answers: a look-up the bits that it found, every other one the
location where it took place. -/
@[reducible]
def DiskAction.Answer : DiskAction → Type
  | .lookUp _ => Nat
  | _ => Location

namespace FileSystem

/-- The length of the longest name there is. -/
def longestName (fs : FileSystem) : Nat :=
  (fs.entries.map fun entry => (entry.1.getLastD []).length).foldr max 0

/-- A name that no entry has. -/
def freshName (fs : FileSystem) : Text := ".tmp".toList ++ List.replicate fs.longestName '0'

/-- What stands for the name of a temporary file where only its length counts. -/
def temporaryName : Text := ".tmp000000".toList

/-- The location of what a path names, links at its end not followed.  Neither a directory's name
for itself nor its name for the one above can be replaced, and a slash at the end would ask for a
directory. -/
def locate (fs : FileSystem) (path : Text) : Except IoFault Location := do
  let (directory, name?) ← fs.parent path
  match name? with
  | none => .error .busy
  | some name =>
    if nameLimit < (Utf8.encode name).length then .error .nameTooLong
    else if Path.endsInSlash path then .error .notADirectory
    else .ok (directory ++ [name])

/-- The file system after an action, and the action's answer. -/
def perform (fs : FileSystem) : (action : DiskAction) → Except IoFault (FileSystem × action.Answer)
  | .createTemporary path => do
    accept (Path.join path temporaryName)
    let directory ← fs.resolve path
    match fs.node? directory with
    | some (.directory _) =>
      fs.permitChange directory
      let location := directory ++ [fs.freshName]
      .ok (fs.put location (.file [] Permission.ofTemporary), location)
    | _ => .error .notADirectory
  | .write location content =>
    match fs.node? location with
    | some (.file _ bits) => .ok (fs.put location (.file content bits), location)
    | some (.directory _) => .error .isADirectory
    | _ => .error .notFound
  | .sync location => .ok (fs, location)
  | .lookUp path => (fs.bits path).map (fs, ·)
  | .setBits location bits =>
    match fs.node? location with
    | some _ => .ok (fs.setBits location bits, location)
    | none => .error .notFound
  | .rename location path => do
    let target ← fs.locate path
    match fs.node? location with
    | none => .error .notFound
    | some node =>
      fs.permitChange location.dropLast
      fs.permitChange target.dropLast
      match fs.node? target with
      | some (.directory _) => .error .isADirectory
      | _ => .ok ((fs.erase location).put target node, target)
  | .remove location => .ok (fs.erase location, location)

end FileSystem
end NotebookTidy
