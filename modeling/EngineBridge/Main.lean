import EngineBridge.CommandLine.Places
import EngineBridge.CommandLine.Run
import EngineBridge.Files.Changes

/-! The program. It takes up the files that a command looks at, carries the command out on them, and puts down what has
changed. -/

namespace EngineBridge.Main

/-- How the program is used. -/
def usage : List String := [
  "Usage: sharpbind codegen --type <assembly|source|json> --input <PATH> --project <DIR> [OPTIONS]",
  "       sharpbind document --type <assembly|source|json> --input <PATH> [OPTIONS]"]

/-- The path to a location. -/
def pathTo (l : Location) : String := "/" ++ String.intercalate "/" l

/-- The entries of the file system at a location and below it. -/
partial def entriesBelow (l : Location) : IO (List (Location × Entry)) := do
  let path := (← IO.currentDir) / pathTo l
  if ← path.isDir then
    let below ← (← path.readDir).toList.mapM fun e => entriesBelow (l ++ [e.fileName])
    return (l, .directory) :: below.flatten
  else if ← path.pathExists then return [(l, .file (← IO.FS.readBinFile path))]
  else return []

/-- What stands at a location, by itself. -/
def entryAt (l : Location) : IO (List (Location × Entry)) := do
  let path := (← IO.currentDir) / pathTo l
  if ← path.isDir then return [(l, .directory)]
  else if ← path.pathExists then return [(l, .file .empty)]
  else return []

/-- The locations that a path goes through, the last one first. -/
def waypoints (current : Location) (p : Path) : List Location :=
  p.components.foldl (fun ls c =>
    let l := ls.headD []
    (if c = ".." then l.dropLast else if c = "." then l else l ++ [c]) :: ls)
    [if p.isAbsolute then [] else current]

/-- A location and all that are above it. -/
def withAbove (l : Location) : List Location := (List.range (l.length + 1)).map l.take

/-- The files that a command looks at, and the directories on the way to them. -/
def takeUp (c : CommandLine.Command) : IO FileTree := do
  let current := (← IO.currentDir).components.filter (· ≠ "")
  let ends := (c.places.map fun p => (waypoints current p).headD []).eraseDups
  let roots := ends.filter fun l => ends.all fun m => m == l || !m.isPrefixOf l
  let ways := (current :: c.places.flatMap (waypoints current)).flatMap withAbove
  let above := ways.eraseDups.filter fun l => l ≠ [] && roots.all fun m => !m.isPrefixOf l
  let found ← (roots.mapM entriesBelow)
  return ⟨found.flatten ++ (← above.mapM entryAt).flatten, current, []⟩

/-- Puts down what has changed. -/
def putDown (before after : FileTree) : IO Unit := do
  for (l, e) in after.entries.reverse do
    if e = Entry.directory && !before.isDirectoryAt l then IO.FS.createDirAll (pathTo l)
  let changes := before.changesTo after
  for (l, content) in changes.written do
    IO.FS.createDirAll (pathTo l.dropLast)
    IO.FS.writeBinFile (pathTo l) content
  for l in changes.removed do IO.FS.removeFile (pathTo l)

/-- Carries out the command that the arguments spell, and gives the exit code. -/
def run (args : List String) : IO UInt32 := do
  match CommandLine.parse args with
  | .error .help =>
    usage.forM IO.println
    return 0
  | .error .misuse =>
    usage.forM IO.eprintln
    return 2
  | .ok command =>
    let before ← takeUp command
    let (after, printed) := command.run before
    putDown before after
    printed.out.forM IO.println
    printed.err.forM IO.eprintln
    return .ofNat printed.exit

end EngineBridge.Main

/-- The program. -/
def main (args : List String) : IO UInt32 := EngineBridge.Main.run args
