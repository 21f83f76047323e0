import EngineBridge.Export.Placeholder
import EngineBridge.Files.Tree

/-! Writing what was generated.

Each stage writes what it can and reports the rest. A type whose trampolines could not be written loses them, and files
of trampolines that no type has any more are taken away, so that the index names what is there. -/

namespace EngineBridge

/-- What became of a file. -/
inductive WriteOutcome
  | written
  /-- The file held the same text already. -/
  | unchanged
  /-- A file of the user's was there. -/
  | preserved
deriving DecidableEq, Repr

/-- The name of what became of a file. -/
def WriteOutcome.name : WriteOutcome → String
  | written => "written"
  | unchanged => "unchanged"
  | preserved => "preserved"

namespace FileTree

/-- Writes a text. -/
def writeText (t : FileTree) (p : Path) (text : String) : FileTree × Except ExportError Unit :=
  match t.write p text.toUTF8 with
  | (t, .ok ()) => (t, .ok ())
  | (t, .error _) => (t, .error (.unwritable p.text))

/-- The file holds exactly this text. -/
def holds (t : FileTree) (p : Path) (text : String) : Bool := t.find? p == some (.file text.toUTF8)

/-- Writes an artifact unless its file holds the same text. -/
def writeArtifact (t : FileTree) (root : Path) (a : Artifact) : FileTree × Except ExportError WriteOutcome :=
  let p := root.join a.path
  if t.holds p a.contents then (t, .ok .unchanged)
  else
    let (t, result) := t.writeText p a.contents
    (t, result.map fun _ => .written)

/-- Writes an artifact unless something has its path. -/
def writeIfAbsent (t : FileTree) (root : Path) (a : Artifact) : FileTree × Except ExportError WriteOutcome :=
  let p := root.join a.path
  if t.isThere p then (t, .ok .preserved)
  else
    let (t, result) := t.writeText p a.contents
    (t, result.map fun _ => .written)

/-- Writes artifacts one after the other, and tells what became of each. -/
def writeAll (t : FileTree) (write : FileTree → Path → Artifact → FileTree × Except ExportError WriteOutcome)
    (root : Path) : List Artifact → FileTree × List (Artifact × Except ExportError WriteOutcome)
  | [] => (t, [])
  | a :: as =>
    let (t, result) := write t root a
    let (t, results) := t.writeAll write root as
    (t, (a, result) :: results)

end FileTree

/-- The artifacts that could not be written, and why. -/
def unwritten (results : List (Artifact × Except ExportError WriteOutcome)) : List (Artifact × ExportError) :=
  results.filterMap fun
    | (a, .error e) => some (a, e)
    | (_, .ok _) => none

/-- What the report says about an artifact that could not be written. -/
def unwrittenEntry (u : Artifact × ExportError) : ReportEntry := ⟨u.1.path.text, .failed u.2.message⟩

namespace Trampoline

/-- The type whose trampolines a file holds, by the file's name. -/
def typeOfPath? (p : Path) : Option String :=
  p.fileName?.bind fun name =>
    if typeFileEnding.toList.isSuffixOf name.toList then
      some (String.ofList (name.toList.take (name.toList.length - typeFileEnding.toList.length)))
    else none

/-- The files below the root that hold trampolines and were not made now. -/
def staleFiles (t : FileTree) (root : Path) (current : List Path) : List Path :=
  (t.walk root).filter fun p =>
    (typeOfPath? p).isSome && !current.any fun q => p.components == q.components && p.isAbsolute == q.isAbsolute

/-- Takes files away; tells which are gone, and what is reported of the others. -/
def removeFiles (t : FileTree) : List Path → FileTree × List Path × List ReportEntry
  | [] => (t, [], [])
  | p :: ps =>
    match t.removeFile p with
    | (t, .ok ()) =>
      let (t, removed, entries) := removeFiles t ps
      (t, p :: removed, entries)
    | (t, .error e) =>
      let (t, removed, entries) := removeFiles t ps
      (t, removed, ⟨p.text, .failed e.message⟩ :: entries)

/-- The entries of types whose file was written. -/
def keptEntries (failed : List (Artifact × ExportError)) (entries : List TrampolineEntry) : List TrampolineEntry :=
  let lost := failed.filterMap fun u => typeOfPath? u.1.path
  entries.filter fun e => !lost.contains e.id.type

/-- Generates and writes the trampolines and their index. -/
def writeOut (t : FileTree) (c : BindingContext) : FileTree × Output :=
  let output := generate c
  let root := output.root
  let (t, results) := t.writeAll FileTree.writeArtifact root output.artifacts
  let failed := unwritten results
  let current := results.filterMap fun
    | (a, .ok _) => some (root.join a.path)
    | (_, .error _) => none
  let (t, removed, notRemoved) := removeFiles t (staleFiles t root current)
  let manifest := { output.manifest with entries := keptEntries failed output.manifest.entries }
  let file : Artifact := ⟨⟨manifestFile⟩, manifest.toText⟩
  let (t, result) := t.writeArtifact root file
  let indexEntries := match result with
    | .ok _ => []
    | .error e => [ReportEntry.mk manifestFile (.failed e.message)]
  (t, { root, manifest, removed
        artifacts := output.artifacts ++ [file]
        report := output.report.addAll (failed.map unwrittenEntry ++ notRemoved ++ indexEntries) })

end Trampoline

namespace Wrapper

/-- Generates and writes the wrappers. -/
def writeOut (t : FileTree) (c : BindingContext) : FileTree × Except ContextError Output :=
  match generate c with
  | .error e => (t, .error e)
  | .ok output =>
    let (t, results) := t.writeAll FileTree.writeArtifact output.root output.artifacts
    (t, .ok { output with report := output.report.addAll ((unwritten results).map unwrittenEntry) })

end Wrapper

namespace Placeholder

/-- What the stage makes. -/
structure Output where
  root : Path
  written : List Path
  preserved : List Path
  report : Report

/-- The artifacts with the given outcome. -/
def pathsWith (outcome : WriteOutcome) (results : List (Artifact × Except ExportError WriteOutcome)) : List Path :=
  results.filterMap fun
    | (a, .ok o) => if o = outcome then some a.path else none
    | (_, .error _) => none

/-- What the report says about an artifact. -/
def entryOf : Artifact × Except ExportError WriteOutcome → ReportEntry
  | (a, .ok _) => ⟨a.path.text, .success⟩
  | (a, .error e) => ⟨a.path.text, .failed e.message⟩

/-- Generates the placeholders and writes those that are not there. -/
def writeOut (t : FileTree) (c : BindingContext) : FileTree × Output :=
  let (artifacts, report) := generate c
  let (t, results) := t.writeAll FileTree.writeIfAbsent c.definitionsRoot artifacts
  (t, { root := c.definitionsRoot
        written := pathsWith .written results
        preserved := pathsWith .preserved results
        report := report.addAll (results.map entryOf) })

end Placeholder
end EngineBridge
