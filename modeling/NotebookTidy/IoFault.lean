import NotebookTidy.Text.Decimal

/-!
# Faults of files and programs

What can go wrong when a path is followed, a file read or written, or a program started.  Each
fault has the short name of its kind and, as a rule, the wording and the number that the operating
system gives it.
-/

namespace NotebookTidy

/-- Why an operation on a path failed. -/
inductive IoFault where
  /-- Nothing is there. -/
  | notFound
  /-- The permission is missing. -/
  | permissionDenied
  /-- A directory was needed. -/
  | notADirectory
  /-- A directory stands in the place of a file. -/
  | isADirectory
  /-- There is something already. -/
  | alreadyExists
  /-- Too many symbolic links were followed. -/
  | linkLoop
  /-- A name or a path is longer than it may be. -/
  | nameTooLong
  /-- A path has a NUL, which no name can have. -/
  | nulInPath
  /-- The name of a program has a NUL. -/
  | nulInProgram
  /-- The place is in use and cannot be replaced. -/
  | busy
  /-- The device has no space left. -/
  | storageFull
deriving Repr, DecidableEq

namespace IoFault

/-- The name of the kind of a fault. -/
def kind : IoFault → String
  | .notFound => "NotFound"
  | .permissionDenied => "PermissionDenied"
  | .notADirectory => "NotADirectory"
  | .isADirectory => "IsADirectory"
  | .alreadyExists => "AlreadyExists"
  | .linkLoop => "FilesystemLoop"
  | .nameTooLong => "InvalidFilename"
  | .nulInPath => "InvalidInput"
  | .nulInProgram => "InvalidInput"
  | .busy => "ResourceBusy"
  | .storageFull => "StorageFull"

/-- What a fault is called. -/
def wording : IoFault → Text
  | .notFound => "No such file or directory".toList
  | .permissionDenied => "Permission denied".toList
  | .notADirectory => "Not a directory".toList
  | .isADirectory => "Is a directory".toList
  | .alreadyExists => "File exists".toList
  | .linkLoop => "Too many levels of symbolic links".toList
  | .nameTooLong => "File name too long".toList
  | .nulInPath => "file name contained an unexpected NUL byte".toList
  | .nulInProgram => "nul byte found in provided data".toList
  | .busy => "Device or resource busy".toList
  | .storageFull => "No space left on device".toList

/-- The system's number for a fault, unless the system is not even asked. -/
def number? : IoFault → Option Nat
  | .notFound => some 2
  | .permissionDenied => some 13
  | .notADirectory => some 20
  | .isADirectory => some 21
  | .alreadyExists => some 17
  | .linkLoop => some 40
  | .nameTooLong => some 36
  | .nulInPath => none
  | .nulInProgram => none
  | .busy => some 16
  | .storageFull => some 28

/-- The message of a fault: what it is called, and its number if it has one. -/
def message (fault : IoFault) : Text :=
  match fault.number? with
  | some n => fault.wording ++ " (os error ".toList ++ Decimal.write n ++ [')']
  | none => fault.wording

end IoFault
end NotebookTidy
