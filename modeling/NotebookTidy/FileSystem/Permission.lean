/-!
# Permission bits

Files and directories have twelve permission bits.  Nine of them are three groups of three, which
say who may read, write and search; the first group is the owner's.  The library acts as the owner
of all there is and is exempt from nothing, so that group decides what it may do.

The three bits in front are privileges.  Two of them, of a file, do not outlive a change of its
content.
-/

namespace NotebookTidy

/-- What an owner may be allowed to do. -/
inductive Right where
  /-- The content of a file, or the names in a directory, can be read. -/
  | read
  /-- The content of a file, or the names in a directory, can be changed. -/
  | write
  /-- What is in a directory can be reached by its name. -/
  | search
deriving Repr, DecidableEq

namespace Permission

/-- The bits of a new file. -/
def ofFile : Nat := 0o644

/-- The bits of a new directory. -/
def ofDirectory : Nat := 0o755

/-- The bits of a new temporary file. -/
def ofTemporary : Nat := 0o600

/-- How many ways there are to set all bits. -/
def bound : Nat := 0o10000

/-- The bit of the owner's group for a right. -/
def ownerBit : Right → Nat
  | .read => 0o400
  | .write => 0o200
  | .search => 0o100

/-- The bit is set. -/
def hasBit (bits bit : Nat) : Bool := bits / bit % 2 = 1

/-- The bits give the owner a right. -/
def grants (bits : Nat) (right : Right) : Bool := hasBit bits (ownerBit right)

/-- The privilege of the owner. -/
def ownerPrivilege : Nat := 0o4000

/-- The privilege of the group. -/
def groupPrivilege : Nat := 0o2000

/-- The group's bit for running a file. -/
def groupRun : Nat := 0o10

/-- The bits of a file whose content is changed in place: the owner's privilege goes, and the
group's goes if the group may run the file. -/
def afterChange (bits : Nat) : Nat :=
  bits - (if hasBit bits ownerPrivilege then ownerPrivilege else 0) -
    (if hasBit bits groupPrivilege && hasBit bits groupRun then groupPrivilege else 0)

/-- The bits of a new directory in a directory with these bits, from which it takes the group's
privilege. -/
def ofSubdirectory (bits : Nat) : Nat :=
  ofDirectory + (if hasBit bits groupPrivilege then groupPrivilege else 0)

end Permission
end NotebookTidy
