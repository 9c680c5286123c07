import NotebookTidy.Toml.Reader

/-!
# Configuration

A configuration document may have a section `format` with up to seven keys.  Each key is set or
not; keys nobody knows are passed over, and a key with a value of the wrong type makes the whole
document unusable.  Two configurations are merged key by key, the project's before the user's.
-/

namespace NotebookTidy

/-- The keys of the section `format`, each set or not. -/
structure FormatSection where
  /-- The greatest number of characters on a line. -/
  lineLength : Option Nat
  /-- Quotes and string markers are left as they are. -/
  skipStringNormalization : Option Bool
  /-- The names of the versions that the code should run on. -/
  targetVersions : Option (List Text)
  /-- The code is an interface description. -/
  isStub : Option Bool
  /-- How many notebooks may be under way at once. -/
  workers : Option Nat
  /-- The program to format with. -/
  program : Option Text
  /-- Rejected code is shown. -/
  showInvalidCode : Option Bool
deriving Repr, DecidableEq

/-- A configuration: its section `format`, if it has one. -/
structure Configuration where
  /-- The section `format`. -/
  format : Option FormatSection
deriving Repr, DecidableEq

namespace FormatSection

/-- No key is set. -/
def empty : FormatSection := ⟨none, none, none, none, none, none, none⟩

/-- **Each key from the first configuration that sets it.** -/
def merge (first second : FormatSection) : FormatSection where
  lineLength := first.lineLength.or second.lineLength
  skipStringNormalization := first.skipStringNormalization.or second.skipStringNormalization
  targetVersions := first.targetVersions.or second.targetVersions
  isStub := first.isStub.or second.isStub
  workers := first.workers.or second.workers
  program := first.program.or second.program
  showInvalidCode := first.showInvalidCode.or second.showInvalidCode

/-! ## Reading -/

/-- A number of things. -/
def count? : Toml → Option Nat
  | .integer (.ofNat n) => some n
  | _ => none

/-- A truth value. -/
def flag? : Toml → Option Bool
  | .boolean b => some b
  | _ => none

/-- A text. -/
def text? : Toml → Option Text
  | .string t => some t
  | _ => none

/-- A list of texts. -/
def texts? : Toml → Option (List Text)
  | .array items => items.mapM text?
  | _ => none

/-- The value of a key that may be missing but must have the right type. -/
def optional? {α : Type} (read : Toml → Option α) : Option Toml → Option (Option α)
  | none => some none
  | some value => (read value).map some

/-- A section whose keys have these values. -/
def ofValues? (value : Text → Option Toml) : Option FormatSection := do
  let lineLength ← optional? count? (value "line_length".toList)
  let skipStringNormalization ← optional? flag? (value "skip_string_normalization".toList)
  let targetVersions ← optional? texts? (value "target_versions".toList)
  let isStub ← optional? flag? (value "pyi".toList)
  let workers ← optional? count? (value "workers".toList)
  let program ← optional? text? (value "black".toList)
  let showInvalidCode ← optional? flag? (value "show_invalid_code".toList)
  some
    ⟨lineLength, skipStringNormalization, targetVersions, isStub, workers, program,
      showInvalidCode⟩

/-- The keys in the order in which a section given as a list has their values. -/
def keyOrder : List Text :=
  ["line_length".toList, "skip_string_normalization".toList, "target_versions".toList,
    "pyi".toList, "workers".toList, "black".toList, "show_invalid_code".toList]

/-- The section that a value is: a table, a list of the values of the first keys, or a date or
time, in which no key is set. -/
def ofToml? : Toml → Option FormatSection
  | .table _ members => ofValues? fun key => Toml.Table.get? key members
  | .array items => ofValues? fun key => items[keyOrder.idxOf key]?
  | .moment _ => some empty
  | _ => none

end FormatSection

namespace Configuration

/-- Nothing is configured. -/
def empty : Configuration := ⟨none⟩

/-- The configuration of a document. -/
def read? (document : Text) : Option Configuration := do
  let root ← Toml.read? document
  match Toml.Table.get? "format".toList root with
  | none => some ⟨none⟩
  | some value => (FormatSection.ofToml? value).map fun format => ⟨some format⟩

/-- The configurations of a user and a project, as far as there are any, made one. -/
def merge (user project : Option Configuration) : Configuration :=
  match user.bind Configuration.format, project.bind Configuration.format with
  | none, none => ⟨none⟩
  | some only, none => ⟨some only⟩
  | none, some only => ⟨some only⟩
  | some user, some project => ⟨some (project.merge user)⟩

end Configuration
end NotebookTidy
