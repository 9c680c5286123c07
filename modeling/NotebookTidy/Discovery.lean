import NotebookTidy.Batch.Outcome
import NotebookTidy.FileSystem.Basic

/-!
# Finding notebooks

Targets are paths of notebooks and of directories.  A directory stands for every file below it
whose name ends in `.ipynb`; directories that links lead to count as below.  What is found is a
set of locations: one file found twice, by whatever path, counts once, and the set is given in the
order of the names from the root down.

What is below a directory is found by paths that start with the target and grow name by name.  A
path may lead through so many links and have so many octets, so a `Trail` is a location together
with what is left of both.  Links may lead in circles, and then it is these limits that end the
search.

Which trails a directory opens is a closure (`IsBelow`): `levels` goes from a trail to those that
are one name longer, and so on.  Every name takes up room, so no more levels are needed than there
is room at the start.

A directory that cannot be read, or not even entered, makes the whole search fail.  The error names
the first one that is met on the way down in the order of names.
-/

namespace NotebookTidy
namespace Discovery

/-- The end of a notebook's name. -/
def notebookSuffix : Text := ".ipynb".toList

/-! ## Trails -/

/-- Where a path has led, and how it may go on. -/
structure Trail where
  /-- Where the path has led. -/
  location : Location
  /-- How many links more the path may lead through. -/
  links : Nat
  /-- How many octets a name may have that is put at the end of the path. -/
  room : Nat
deriving Repr, DecidableEq

/-- The trail that is one name longer, if the name leads anywhere and the limits are kept.  A slash
goes between two names. -/
def Trail.next (fs : FileSystem) (trail : Trail) (name : Text) : Except IoFault Trail :=
  let size := (Utf8.encode name).length
  if size ≤ trail.room then
    (fs.walk trail.location [name] trail.links).map fun (location, links) =>
      ⟨location, links, trail.room - size - 1⟩
  else .error .nameTooLong

/-- The names of a target, and what is empty between its slashes.  A relative path is not started
with steps to the directory itself. -/
def pieces (target : Text) : List Text :=
  let all := Text.splitAt '/' target
  if Path.isAbsolute target then all else all.dropWhile (· = Path.here)

/-- What the paths of everything below a target start with: its names with a slash after each.
There is nothing below a target whose names would start with an empty one. -/
def lead? (target : Text) : Option Text :=
  let root := if Path.isAbsolute target then ['/'] else []
  let names := (pieces target).filter (· ≠ [])
  if root = [] ∧ (pieces target).head? = some [] then none
  else some (root ++ names.flatMap (· ++ ['/']))

/-- The trail that a directory opens, if anything can be found below it. -/
def opening? (fs : FileSystem) (target : Text) : Option Trail :=
  match fs.arrive target, lead? target with
  | .ok (location, links), some lead =>
    some ⟨location, links, FileSystem.pathLimit - (Utf8.encode lead).length⟩
  | _, _ => none

/-! ## Going down -/

/-- The trail to the directory that a name in a directory leads to. -/
def subdirectory? (fs : FileSystem) (trail : Trail) (name : Text) : Option Trail :=
  match trail.next fs name with
  | .ok next =>
    match fs.node? next.location with
    | some (.directory _) => some next
    | _ => none
  | .error _ => none

/-- The trails to the directories that the names in a directory lead to. -/
def subdirectories (fs : FileSystem) (trail : Trail) : List Trail :=
  (fs.children trail.location).filterMap fun (name, _) => subdirectory? fs trail name

/-- **Being below a directory**: a trail is below itself, and so are those that are one name longer
than a trail below it. -/
inductive IsBelow (fs : FileSystem) (start : Trail) : Trail → Prop where
  | self : IsBelow fs start start
  | entry {inner next : Trail} (h : IsBelow fs start inner)
    (step : next ∈ subdirectories fs inner) : IsBelow fs start next

/-- The trails of a list, each once. -/
def distinct : List Trail → List Trail
  | [] => []
  | trail :: rest => if trail ∈ rest then distinct rest else trail :: distinct rest

/-- These trails, and those that are up to so many names longer. -/
def levels (fs : FileSystem) (trails : List Trail) : Nat → List Trail
  | 0 => trails
  | names + 1 =>
    if trails = [] then []
    else trails ++ levels fs (distinct (trails.flatMap (subdirectories fs))) names

/-- A trail and all trails below it. -/
def below (fs : FileSystem) (start : Trail) : List Trail := levels fs [start] start.room

/-- The notebooks that the names in a directory lead to. -/
def notebooksAt (fs : FileSystem) (trail : Trail) : List Location :=
  (fs.children trail.location).filterMap fun (name, _) =>
    if Text.endsWith notebookSuffix name then
      match trail.next fs name with
      | .ok next =>
        match fs.node? next.location with
        | some (.file _ _) => some next.location
        | _ => none
      | .error _ => none
    else none

/-! ## Obstacles -/

/-- Why a directory in a directory cannot be entered.  A link that cannot be followed is no
obstacle: what it leads to is passed over. -/
def entryFault? (fs : FileSystem) (trail : Trail) : Text × Node → Option IoFault
  | (name, .directory _) =>
    match trail.next fs name with
    | .ok _ => none
    | .error fault => some fault
  | _ => none

/-- The directory cannot be read, or a directory in it cannot be entered. -/
def isBlocked (fs : FileSystem) (trail : Trail) : Bool :=
  !fs.allows trail.location .read ||
    (fs.children trail.location).any fun entry => (entryFault? fs trail entry).isSome

/-- The directory or one below it is blocked. -/
def isObstructed (fs : FileSystem) (trail : Trail) : Bool := (below fs trail).any (isBlocked fs)

/-- The first obstacle below a directory, with its path, at most so many names further down.  The
path of the directory is given as it is shown and as the paths below it start.  Only directories
with an obstacle below them are looked into. -/
def obstacle? (fs : FileSystem) (shown lead : Text) (trail : Trail) :
    Nat → Option (Text × IoFault)
  | 0 => none
  | names + 1 =>
    if fs.allows trail.location .read then
      let entries := (fs.children trail.location).mergeSort fun a b => !(b.1 < a.1)
      entries.findSome? fun entry =>
        let path := lead ++ entry.1
        match entryFault? fs trail entry, subdirectory? fs trail entry.1 with
        | some fault, _ => some (path, fault)
        | none, some next =>
          if isObstructed fs next then obstacle? fs path (path ++ ['/']) next names else none
        | none, none => none
    else some (shown, .permissionDenied)

/-- The path of a target as it is shown if it cannot be read. -/
def shownPath (target lead : Text) : Text :=
  if lead = [] then Path.here
  else if Path.endsInSlash target then lead
  else lead.dropLast

/-- The wording of an obstacle. -/
def obstacleMessage (path : Text) (fault : IoFault) : Text :=
  "attempting to read `".toList ++ path ++ "` resulted in an error: ".toList ++ fault.message

/-- The first obstacle below a target, which opens a trail. -/
def firstObstacle? (fs : FileSystem) (target : Text) (start : Trail) : Option (Text × IoFault) :=
  if isObstructed fs start then
    (lead? target).bind fun lead =>
      obstacle? fs (shownPath target lead) lead start (start.room + 1)
  else none

/-- The notebooks below a directory. -/
def notebooksIn (fs : FileSystem) (target : Text) : Except RunError (List Location) :=
  match opening? fs target with
  | none => .ok []
  | some start =>
    match firstObstacle? fs target start with
    | some (path, fault) => .error (.expansion target (obstacleMessage path fault))
    | none => .ok ((below fs start).flatMap (notebooksAt fs))

/-! ## Targets -/

/-- A location put into a list in the order of names, unless it is there. -/
def insert (location : Location) : List Location → List Location
  | [] => [location]
  | l :: rest =>
    if location < l then location :: l :: rest
    else if location = l then l :: rest
    else l :: insert location rest

/-- Locations in the order of names, each once. -/
def setOf (locations : List Location) : List Location := locations.foldr insert []

/-- The notebooks that a target stands for. -/
def expand (fs : FileSystem) (target : Text) : Except RunError (List Location) :=
  match fs.resolve target with
  | .error fault => .error (.notebook target (.io fault))
  | .ok location =>
    if fs.isDirectory target then notebooksIn fs target
    else if Path.isNotebook target then .ok [location]
    else .error (.invalidExtension target)

/-- The notebooks that targets stand for, one target after the other. -/
def expandAll (fs : FileSystem) : List Text → Except RunError (List Location)
  | [] => .ok []
  | target :: rest => do
    let first ← expand fs target
    let others ← expandAll fs rest
    .ok (first ++ others)

/-- **The notebooks that targets stand for**, in the order of names.  Targets that are not there
are all reported, before anything else is. -/
def discover (fs : FileSystem) (targets : List Text) : Except RunError (List Text) :=
  let missing := targets.filter fun target => !fs.pathExists target
  if missing = [] then (expandAll fs targets).map fun found => (setOf found).map Location.path
  else .error (.missingTargets missing)

end Discovery
end NotebookTidy
