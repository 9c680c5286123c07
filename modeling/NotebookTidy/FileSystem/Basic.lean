import NotebookTidy.FileSystem.Path
import NotebookTidy.FileSystem.Permission
import NotebookTidy.IoFault
import NotebookTidy.Text.Utf8

/-!
# File systems

A file system is what a process sees of it: the entries, each at a location, and the directory
that relative paths start from.  An entry is a file with its octets, a directory, or a symbolic
link with the path it leads to; files and directories have permission bits.

`resolve` follows a path to a location, link after link.  It walks by names until it meets a link
(`advance`), puts the link's path in front of the names that are left and walks on, and gives up
after `linkLimit` links.  A path that is no path at all, or too long for one, is refused before
the walk starts (`accept`), and a directory lets a walk pass only if it may be searched.
-/

namespace NotebookTidy

/-- An entry of a file system. -/
inductive Node where
  /-- A file. -/
  | file (content : Octets) (bits : Nat)
  /-- A directory. -/
  | directory (bits : Nat)
  /-- A symbolic link. -/
  | link (target : Text)
deriving Repr, DecidableEq

/-- The entries of a file system, and the directory that a process works in. -/
structure FileSystem where
  /-- The entries below the root, each with its location. -/
  entries : List (Location × Node)
  /-- The directory that relative paths start from. -/
  here : Location
deriving Repr, DecidableEq

namespace FileSystem

/-- The entry among others that is at a location. -/
def nodeIn? (location : Location) : List (Location × Node) → Option Node
  | [] => none
  | (l, node) :: rest => if l = location then some node else nodeIn? location rest

/-- What is at a location; the root is a directory. -/
def node? (fs : FileSystem) (location : Location) : Option Node :=
  if location = [] then some (.directory Permission.ofDirectory) else nodeIn? location fs.entries

/-- Entries with the one at a location replaced, or added at the end. -/
def putIn (location : Location) (node : Node) : List (Location × Node) → List (Location × Node)
  | [] => [(location, node)]
  | (l, n) :: rest =>
    if l = location then (location, node) :: rest else (l, n) :: putIn location node rest

/-- The file system with an entry at a location. -/
def put (fs : FileSystem) (location : Location) (node : Node) : FileSystem :=
  { fs with entries := putIn location node fs.entries }

/-- The file system without the entry at a location. -/
def erase (fs : FileSystem) (location : Location) : FileSystem :=
  { fs with entries := fs.entries.filter fun entry => entry.1 ≠ location }

/-- The file system without the entry at a location and everything below it. -/
def eraseTree (fs : FileSystem) (location : Location) : FileSystem :=
  { fs with entries := fs.entries.filter fun entry => !location.isPrefixOf entry.1 }

/-- The names in a directory with what they name. -/
def children (fs : FileSystem) (directory : Location) : List (Text × Node) :=
  fs.entries.filterMap fun (l, node) =>
    match l.getLast? with
    | some name => if l = directory ++ [name] then some (name, node) else none
    | none => none

/-- **The file systems there are**: no location has two entries, and every entry is in a
directory. -/
def WellFormed (fs : FileSystem) : Prop :=
  (fs.entries.map Prod.fst).Nodup ∧
    ∀ entry ∈ fs.entries, entry.1 ≠ [] ∧ ∃ bits, fs.node? entry.1.dropLast = some (.directory bits)

/-! ## Following paths -/

/-- How many links one path may lead through. -/
def linkLimit : Nat := 40

/-- How many octets a name may have. -/
def nameLimit : Nat := 255

/-- How many octets a path may have. -/
def pathLimit : Nat := 4095

/-- What must hold of a path before it is followed: it has no NUL, it is not empty, and it is no
longer than paths may be. -/
def accept (path : Text) : Except IoFault Unit :=
  if '\x00' ∈ path then .error .nulInPath
  else if path = [] then .error .notFound
  else if pathLimit < (Utf8.encode path).length then .error .nameTooLong
  else .ok ()

/-- How far a walk got. -/
inductive Arrival where
  /-- To its end. -/
  | arrived (location : Location)
  /-- To a link in a directory; the link's path and the steps that are left. -/
  | link (directory : Location) (target : Text) (rest : List Text)
deriving Repr, DecidableEq

/-- A walk by names from a location, until it ends or meets a link.  An empty name asks for a
directory and for nothing in it. -/
def advance (fs : FileSystem) (location : Location) : List Text → Except IoFault Arrival
  | [] => .ok (.arrived location)
  | name :: rest =>
    match fs.node? location with
    | some (.directory bits) =>
      if name = [] then fs.advance location rest
      else if !Permission.grants bits .search then .error .permissionDenied
      else if name = Path.here then fs.advance location rest
      else if name = Path.above then fs.advance location.dropLast rest
      else if nameLimit < (Utf8.encode name).length then .error .nameTooLong
      else
        match fs.node? (location ++ [name]) with
        | none => .error .notFound
        | some (.link target) => .ok (.link location target rest)
        | some _ => fs.advance (location ++ [name]) rest
    | _ => .error .notADirectory

/-- A walk that goes on after links, as many as it may.  It ends at a location, with so many links
left. -/
def walk (fs : FileSystem) (location : Location) (steps : List Text) :
    Nat → Except IoFault (Location × Nat)
  | 0 =>
    match fs.advance location steps with
    | .error fault => .error fault
    | .ok (.arrived location) => .ok (location, 0)
    | .ok (.link _ _ _) => .error .linkLoop
  | links + 1 =>
    match fs.advance location steps with
    | .error fault => .error fault
    | .ok (.arrived location) => .ok (location, links + 1)
    | .ok (.link directory target rest) =>
      if target = [] then .error .notFound
      else
        fs.walk (if Path.isAbsolute target then [] else directory) (Path.steps target ++ rest)
          links

/-- The location that a path starts from. -/
def origin (fs : FileSystem) (path : Text) : Location :=
  if Path.isAbsolute path then [] else fs.here

/-- The location that a path leads to, and how many links more it could lead through. -/
def arrive (fs : FileSystem) (path : Text) : Except IoFault (Location × Nat) := do
  accept path
  fs.walk (fs.origin path) (Path.steps path) linkLimit

/-- The location that a path leads to. -/
def resolve (fs : FileSystem) (path : Text) : Except IoFault Location :=
  (fs.arrive path).map Prod.fst

/-- The directory in which a path names something, and the name, which nothing need have.  There is
no name if the path ends in a step to a directory itself or upwards. -/
def parent (fs : FileSystem) (path : Text) : Except IoFault (Location × Option Text) := do
  accept path
  let steps := (Path.names path).dropLast ++ [Path.here]
  let (directory, _) ← fs.walk (fs.origin path) steps linkLimit
  .ok (directory, Path.lastName? path)

/-- What a path leads to. -/
def follow (fs : FileSystem) (path : Text) : Except IoFault Node := do
  let location ← fs.resolve path
  match fs.node? location with
  | some node => .ok node
  | none => .error .notFound

/-- The path leads somewhere. -/
def pathExists (fs : FileSystem) (path : Text) : Bool :=
  match fs.follow path with
  | .ok _ => true
  | .error _ => false

/-- The path leads to a directory. -/
def isDirectory (fs : FileSystem) (path : Text) : Bool :=
  match fs.follow path with
  | .ok (.directory _) => true
  | _ => false

/-- The octets of the file that a path leads to. -/
def read (fs : FileSystem) (path : Text) : Except IoFault Octets := do
  match ← fs.follow path with
  | .file content bits =>
    if Permission.grants bits .read then .ok content else .error .permissionDenied
  | .directory bits =>
    .error (if Permission.grants bits .read then .isADirectory else .permissionDenied)
  | .link _ => .error .linkLoop

/-! ## Permissions -/

/-- What is at a location gives its owner a right.  Links give none. -/
def allows (fs : FileSystem) (location : Location) (right : Right) : Bool :=
  match fs.node? location with
  | some (.file _ bits) => Permission.grants bits right
  | some (.directory bits) => Permission.grants bits right
  | _ => false

/-- The names in a directory can be changed. -/
def permitChange (fs : FileSystem) (directory : Location) : Except IoFault Unit :=
  if fs.allows directory .write && fs.allows directory .search then .ok ()
  else .error .permissionDenied

/-- The permission bits of what a path leads to. -/
def bits (fs : FileSystem) (path : Text) : Except IoFault Nat := do
  match ← fs.follow path with
  | .file _ bits => .ok bits
  | .directory bits => .ok bits
  | .link _ => .error .linkLoop

/-- The file system with other permission bits at a location. -/
def setBits (fs : FileSystem) (location : Location) (bits : Nat) : FileSystem :=
  match fs.node? location with
  | some (.file content _) => fs.put location (.file content bits)
  | some (.directory _) => fs.put location (.directory bits)
  | _ => fs

end FileSystem
end NotebookTidy
