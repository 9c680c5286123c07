import NotebookTidy.Notebook.Format
import NotebookTidy.Notebook.Reader
import NotebookTidy.Task

/-!
# Notebook files

A notebook with the path it was read from.  Processing it means formatting it and replacing the
file if the notebook has changed, or only checking it.  Between formatting and replacing the task
asks once more whether the run has been cancelled: an interrupted file is never written.

A file is replaced by way of a temporary file beside it (`Task.replaceFile`): the new content goes
into the temporary file, which then takes the place of the old one in a single action.  So there is
no moment at which the file is half written.  If a change of files fails, the temporary file is
removed and the file is as it was.
-/

namespace NotebookTidy

/-! ## Replacing a file -/

namespace Task

/-- Actions one after the other, up to the first that fails. -/
def changeAll : List DiskAction → Task (Except IoFault Unit)
  | [] => pure (.ok ())
  | action :: rest => do
    match ← change action with
    | .error fault => pure (.error fault)
    | .ok _ => changeAll rest

/-- A temporary file takes the place of what a path names, with the permission bits of what the
path leads to.  Where these cannot be looked up, it keeps its own. -/
def adopt (path : Text) (temporary : Location) : Task (Except IoFault Unit) := do
  match ← change (.lookUp path) with
  | .ok bits => changeAll [.setBits temporary bits, .rename temporary path]
  | .error _ => changeAll [.rename temporary path]

/-- A temporary file gets a content, which is brought to the disk, and takes the place of what a
path names. -/
def install (path : Text) (content : Octets) (temporary : Location) :
    Task (Except IoFault Unit) := do
  match ← changeAll [.write temporary content, .sync temporary] with
  | .error fault => pure (.error fault)
  | .ok () => adopt path temporary

/-- **The file that a path names is replaced** by one with a new content, by way of a temporary
file, which is removed if it cannot be installed. -/
def replaceFile (path : Text) (content : Octets) : Task (Except IoFault Unit) := do
  match ← change (.createTemporary (Path.directory path)) with
  | .error fault => pure (.error fault)
  | .ok temporary =>
    match ← install path content temporary with
    | .ok () => pure (.ok ())
    | .error fault =>
      let _ ← change (.remove temporary)
      pure (.error fault)

end Task

/-! ## Notebooks in files -/

/-- A notebook and the path of its file. -/
structure StoredNotebook where
  /-- The path of the file. -/
  path : Text
  /-- The notebook in it. -/
  notebook : Notebook
deriving Repr, DecidableEq

namespace StoredNotebook

/-- The notebook in the file that a path leads to. -/
def load (disk : FileSystem) (path : Text) : Except RunError StoredNotebook :=
  match disk.read path with
  | .error fault => .error (.notebook path (.io fault))
  | .ok octets =>
    match Notebook.ofOctets octets with
    | .error error => .error (.notebook path error)
    | .ok notebook => .ok ⟨path, notebook⟩

/-- The notebooks in files, unless one cannot be read: then the first such one. -/
def loadAll (disk : FileSystem) : List Text → Except RunError (List StoredNotebook)
  | [] => .ok []
  | path :: rest =>
    match load disk path with
    | .error error => .error error
    | .ok file => (loadAll disk rest).map (file :: ·)

/-- A formatter's failure as the failure of a file: an interrupted formatter cancels the run. -/
def failure (path : Text) : FormatterError → RunError
  | .interrupted => .cancelled
  | error => .formatter path error

/-- A notebook that has changed is written, unless the run has been cancelled meanwhile. -/
def save (path : Text) (notebook : Notebook) (rejections : Rejections) : Task Outcome := do
  if ← Task.isCancelled then pure (.error .cancelled)
  else
    match ← Task.replaceFile path (Utf8.encode notebook.write) with
    | .error fault => pure (.error (.write path fault))
    | .ok () => pure (.ok ⟨path, .reformatted, rejections⟩)

/-- The notebook is formatted, and the file replaced if it changed. -/
def format (mode : Mode) (file : StoredNotebook) : Task Outcome := do
  let (notebook, result) ← file.notebook.format mode
  match result with
  | .error error => pure (.error (failure file.path error))
  | .ok (false, rejections) => pure (.ok ⟨file.path, .unchanged, rejections⟩)
  | .ok (true, rejections) => save file.path notebook rejections

/-- The notebook is checked. -/
def check (mode : Mode) (file : StoredNotebook) : Task Outcome := do
  match ← file.notebook.check mode with
  | .error error => pure (.error (failure file.path error))
  | .ok (true, rejections) => pure (.ok ⟨file.path, .unchanged, rejections⟩)
  | .ok (false, rejections) => pure (.ok ⟨file.path, .wouldReformat, rejections⟩)

/-- What is asked for is done with the notebook. -/
def process (action : Action) (mode : Mode) (file : StoredNotebook) : Task Outcome :=
  match action with
  | .format => file.format mode
  | .check => file.check mode

end StoredNotebook
end NotebookTidy
