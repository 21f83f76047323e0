import EngineBridge.Files.Path
import EngineBridge.Text.Utf8

/-! A tree of files and the operations that the program performs on it. A tree is a value: an operation gives the
tree that is left behind. -/

namespace EngineBridge

/-- Names from the root of a tree down to an entry. -/
abbrev Location := List String

/-- An entry of a tree. -/
inductive Entry
  | directory
  | file (content : ByteArray)

instance : DecidableEq Entry
  | .directory, .directory => isTrue rfl
  | .file ⟨a⟩, .file ⟨b⟩ => if h : a = b then isTrue (h ▸ rfl) else isFalse fun e => by cases e; exact h rfl
  | .directory, .file _ | .file _, .directory => isFalse nofun

/-- Why a file operation fails. -/
inductive FileError
  | notFound
  | alreadyExists
  | notDirectory
  | isDirectory
  | nameTooLong
  | zeroInName
  | notText
  | denied
deriving DecidableEq, Repr

namespace FileError

/-- The name of the kind of error. -/
def kind : FileError → String
  | notFound => "NotFound"
  | alreadyExists => "AlreadyExists"
  | notDirectory => "NotADirectory"
  | isDirectory => "IsADirectory"
  | nameTooLong => "InvalidFilename"
  | zeroInName => "InvalidInput"
  | notText => "InvalidData"
  | denied => "PermissionDenied"

/-- How the system words the failure. -/
def message : FileError → String
  | notFound => "No such file or directory (os error 2)"
  | alreadyExists => "File exists (os error 17)"
  | notDirectory => "Not a directory (os error 20)"
  | isDirectory => "Is a directory (os error 21)"
  | nameTooLong => "File name too long (os error 36)"
  | zeroInName => "file name contained an unexpected NUL byte"
  | notText => "stream did not contain valid UTF-8"
  | denied => "Permission denied (os error 13)"

end FileError

/-- What can be refused at a location. -/
inductive FileAction
  | writing
  | removing
deriving DecidableEq, Repr

/-- The entries below the root, and the directory that relative paths start from. An entry that is listed first hides
those of the same location behind it. -/
structure FileTree where
  entries : List (Location × Entry)
  current : Location
  /-- Locations of files, and what is refused there. -/
  locked : List (Location × FileAction) := []

namespace FileTree

/-- The entry at a location. The root is a directory. -/
def entry? (t : FileTree) (l : Location) : Option Entry :=
  if l = [] then some .directory else t.entries.lookup l

def isDirectoryAt (t : FileTree) (l : Location) : Bool := t.entry? l == some .directory

/-- The tree with an entry put in. -/
def put (t : FileTree) (l : Location) (e : Entry) : FileTree :=
  { t with entries := (l, e) :: t.entries.filter fun x => x.1 ≠ l }

/-- The tree without a location and what lies below it. -/
def drop (t : FileTree) (l : Location) : FileTree :=
  { t with entries := t.entries.filter fun x => !l.isPrefixOf x.1 }

/-- One segment further. Only a directory can be gone on from. -/
def step (t : FileTree) (l : Location) (segment : String) : Except FileError Location :=
  match t.entry? l with
  | none => .error .notFound
  | some (.file _) => .error .notDirectory
  | some .directory =>
    if segment = "" || segment = "." then .ok l
    else if segment = ".." then .ok l.dropLast
    else if 255 < segment.utf8ByteSize then .error .nameTooLong
    else .ok (l ++ [segment])

/-- Where a path starts. -/
def startOf (t : FileTree) (p : Path) : Location := if p.isAbsolute then [] else t.current

/-- Where a path leads. There need not be anything at its end. -/
def locate (t : FileTree) (p : Path) : Except FileError Location :=
  if p.text = "" then .error .notFound
  else if p.text.toList.contains (Char.ofNat 0) then .error .zeroInName
  else p.segments.foldlM t.step (t.startOf p)

/-- What is found at the end of a path. -/
def find? (t : FileTree) (p : Path) : Option Entry :=
  match t.locate p with
  | .ok l => t.entry? l
  | .error _ => none

def isThere (t : FileTree) (p : Path) : Bool := (t.find? p).isSome

def isDirectory (t : FileTree) (p : Path) : Bool := t.find? p == some .directory

/-- The bytes of a file. -/
def read (t : FileTree) (p : Path) : Except FileError ByteArray := do
  let l ← t.locate p
  match t.entry? l with
  | none => throw .notFound
  | some .directory => throw .isDirectory
  | some (.file content) => return content

/-- The text of a file. -/
def readText (t : FileTree) (p : Path) : Except FileError String := do
  match String.fromUTF8? (← t.read p) with
  | some s => return s
  | none => throw .notText

/-- Goes one segment further and makes a directory where nothing is. -/
def stepMaking (t : FileTree) (l : Location) (segment : String) : Except FileError (FileTree × Location) := do
  let next ← t.step l segment
  match t.entry? next with
  | some .directory => return (t, next)
  | some (.file _) => throw .notDirectory
  | none => return (t.put next .directory, next)

/-- Makes the directories of a list of components, one within the other; what could be made stays. -/
def makeAll (t : FileTree) (l : Location) : List String → FileTree × Except FileError Location
  | [] => (t, .ok l)
  | c :: cs =>
    match t.stepMaking l c with
    | .ok (t, l) => t.makeAll l cs
    | .error .notDirectory => (t, .error (if cs.isEmpty then .alreadyExists else .notDirectory))
    | .error e => (t, .error e)

/-- Writes a file, after making the directories it lies in. -/
def write (t : FileTree) (p : Path) (content : ByteArray) : FileTree × Except FileError Unit :=
  if p.text.toList.contains (Char.ofNat 0) then (t, .error .zeroInName)
  else match t.makeAll (t.startOf p) p.components.dropLast with
  | (t, .error e) => (t, .error e)
  | (t, .ok _) =>
    match t.locate p with
    | .error .notFound => (t, .error .isDirectory)
    | .error e => (t, .error e)
    | .ok l =>
      match t.entry? l with
      | some .directory => (t, .error .isDirectory)
      | _ =>
        if t.locked.contains (l, .writing) then (t, .error .denied) else (t.put l (.file content), .ok ())

/-- Removes a file. -/
def removeFile (t : FileTree) (p : Path) : FileTree × Except FileError Unit :=
  match t.locate p with
  | .error e => (t, .error e)
  | .ok l =>
    match t.entry? l with
    | none => (t, .error .notFound)
    | some .directory => (t, .error .isDirectory)
    | some (.file _) => if t.locked.contains (l, .removing) then (t, .error .denied) else (t.drop l, .ok ())

/-- The order of paths: component by component. -/
def locationLe (a b : Location) : Bool := a == b || decide (a < b)

/-- The files below a location, with their names from there, in the order of their paths. -/
def filesBelow (t : FileTree) (l : Location) : List (Location × ByteArray) :=
  (t.entries.filterMap fun x =>
    match x.2 with
    | .file content => if l.isPrefixOf x.1 then some (x.1.drop l.length, content) else none
    | .directory => none).mergeSort fun a b => locationLe a.1 b.1

/-- The paths of all files found under a path, in their order. A path of a file leads to itself. -/
def walk (t : FileTree) (p : Path) : List Path :=
  match t.locate p with
  | .error _ => []
  | .ok l => (t.filesBelow l).map fun f => f.1.foldl Path.child p

end FileTree
end EngineBridge
