import NotebookTidy.Text.Search

/-!
# Target versions

The language versions that formatted code can be asked to run on.  A version is read from its
name in any case and with blanks around it.  A `VersionSet` keeps its members in the order of
their age, each once, so that a set has one form whatever the order its members were named in.
-/

namespace NotebookTidy

/-- A language version. -/
inductive TargetVersion where
  | py33
  | py34
  | py35
  | py36
  | py37
  | py38
  | py39
  | py310
  | py311
  | py312
  | py313
deriving Repr, DecidableEq

namespace TargetVersion

/-- All versions, the oldest first. -/
def all : List TargetVersion :=
  [py33, py34, py35, py36, py37, py38, py39, py310, py311, py312, py313]

/-- The name of a version. -/
def name : TargetVersion → Text
  | py33 => "py33".toList
  | py34 => "py34".toList
  | py35 => "py35".toList
  | py36 => "py36".toList
  | py37 => "py37".toList
  | py38 => "py38".toList
  | py39 => "py39".toList
  | py310 => "py310".toList
  | py311 => "py311".toList
  | py312 => "py312".toList
  | py313 => "py313".toList

/-- The place of a version among all. -/
def index (v : TargetVersion) : Nat := all.idxOf v

/-- The version with a name, whose letters may be of either case and which may stand between
blanks. -/
def ofName? (t : Text) : Option TargetVersion :=
  let wanted := (Text.trim t).map Char.toLower
  all.find? fun v => v.name = wanted

/-- The wording for a name that no version has. -/
def unknownMessage (t : Text) : Text :=
  "Unknown target version '".toList ++ t ++ "'. Expected one of: ".toList ++
    Text.intercalate ", ".toList (all.map name)

end TargetVersion

/-- A set of versions. -/
structure VersionSet where
  /-- The members, the oldest first. -/
  members : List TargetVersion
  /-- Every member is older than those after it. -/
  ordered : members.Pairwise fun v w => v.index < w.index
deriving Repr, DecidableEq

namespace VersionSet

/-- The set without members. -/
def empty : VersionSet := ⟨[], .nil⟩

/-- The set of the versions in a list. -/
def ofList (versions : List TargetVersion) : VersionSet where
  members := TargetVersion.all.filter fun v => versions.contains v
  ordered := List.Pairwise.filter _ (by decide)

/-- The set with one member more. -/
def insert (v : TargetVersion) (s : VersionSet) : VersionSet := ofList (v :: s.members)

end VersionSet
end NotebookTidy
