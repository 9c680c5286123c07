import NotebookTidy.CommandLine.Run
import NotebookTidy.FileSystem.Install

/-!
# The program

The outer layer of the command line: it takes a picture of the files that the command line names,
carries the run out on the picture, and writes back the files that have changed.  It decides
nothing by itself.  The spacing formatter serves as the program `black`.
-/

namespace NotebookTidy
namespace Main

/-- Where the built-in formatter is installed in the picture. -/
def builtInLocation : Location := ["built-in".toList, "black".toList]

/-- The built-in formatter as a program. -/
def builtIn : Program := fun _ launch =>
  if launch.arguments = [versionArgument] then
    ⟨⟨.exited 0, Utf8.encode "black, built in\n".toList, []⟩, 0⟩
  else ⟨Spacing.asProgram launch.input, 0⟩

/-- A file system after a change, or as it was if the change is refused. -/
def settle (disk : FileSystem) (change : Except IoFault FileSystem) : FileSystem :=
  change.toOption.getD disk

/-- A picture of files, and the directories whose entries are in it. -/
structure Picture where
  /-- The files as far as they have been seen. -/
  disk : FileSystem
  /-- The paths of the directories that have been searched. -/
  searched : List Text

/-- The picture with what a name in a directory leads to, and the place it leads to.  A name that
leads elsewhere is a link to that place. -/
def Picture.addEntry (p : Picture) (directory name : Text) : IO (Picture × Text) := do
  let path := Path.join directory name
  let real ← IO.FS.realPath (String.ofList path)
  let place := real.toString.toList
  let isPlain := path = place || name = Path.here || name = Path.above
  let disk := if isPlain then p.disk else settle p.disk (p.disk.installLink path place)
  if ← real.isDir then
    return ({ p with disk := settle disk (disk.installDirectory place) }, place)
  else
    let content ← IO.FS.readBinFile real
    return ({ p with disk := settle disk (disk.installFile place content.toList) }, place)

/-- The picture with everything below a directory. -/
partial def Picture.addBelow (p : Picture) (directory : Text) : IO Picture := do
  if directory ∈ p.searched then return p
  else
    let real ← IO.FS.realPath (String.ofList directory)
    unless ← real.isDir do return p
    let p := { p with searched := directory :: p.searched }
    (← real.readDir).foldlM
      (fun p entry => do
        try
          let (p, place) ← p.addEntry directory entry.fileName.toList
          p.addBelow place
        catch _ => return p)
      p

/-- The picture with what a path leads to, and everything below it if that is asked for. -/
def Picture.addPath (p : Picture) (here path : Text) (below : Bool) : IO Picture := do
  let start := if Path.isAbsolute path then ['/'] else here
  let mut picture := p
  let mut place := start
  try
    for name in Path.names path do
      let (next, there) ← picture.addEntry place name
      picture := next
      place := there
    if below then picture.addBelow place else return picture
  catch _ => return picture

/-- The files of the second picture that the first does not have with the same content. -/
def changedFiles (before after : FileSystem) : List (Location × Octets) :=
  after.entries.filterMap fun (location, node) =>
    match node with
    | .file content _ =>
      match before.node? location with
      | some (.file content' _) => if content = content' then none else some (location, content)
      | _ => some (location, content)
    | _ => none

end Main
end NotebookTidy

open NotebookTidy

/-- A command line is carried out; the result is the exit code. -/
def main (arguments : List String) : IO UInt32 := do
  let here := (← IO.currentDir).toString.toList
  let home := ((← IO.getEnv "HOME").getD "/").toList
  let start := FileSystem.empty
  let start := Main.settle start (start.installFile (Location.path Main.builtInLocation) [])
  let start := { Main.settle start (start.installDirectory here) with here := Path.names here }
  let configs := [Path.join home Surroundings.configName, Surroundings.configName]
  let picture : Main.Picture := ⟨start, []⟩
  let picture ← configs.foldlM (fun p path => Main.Picture.addPath p here path false) picture
  let picture ← (arguments.map String.toList).foldlM
    (fun p path => Main.Picture.addPath p here path true) picture
  let disk := picture.disk
  let surroundings : Surroundings :=
    { disk
      home
      searchPath := [Location.path Main.builtInLocation.dropLast]
      programs := [(Main.builtInLocation, Main.builtIn)] }
  let ending := surroundings.execute (arguments.map String.toList)
  for (location, content) in Main.changedFiles disk ending.world.disk do
    IO.FS.writeBinFile (String.ofList location.path) ⟨content.toArray⟩
  IO.print (String.ofList ending.output)
  IO.eprint (String.ofList ending.complaint)
  return UInt32.ofNat (ending.code.getD CommandError.cancelledCode)
