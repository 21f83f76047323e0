import EngineBridge.Files.Tree
import EngineBridge.Manifest.CrossReference
import EngineBridge.Model.Codec
import EngineBridge.Model.Resolve
import EngineBridge.Pattern.Parse
import EngineBridge.Source.Parse

/-! Where documents come from: a saved document, source files, or the manifest of a compiled assembly together with
companion source files. -/

namespace EngineBridge

/-- What the input of a run is. -/
inductive SourceKind
  | assembly
  | sourceCode
  | savedDocument
deriving DecidableEq, Repr

/-- What some kinds of input leave open. -/
structure SourceOptions where
  engineVersion : String
  attributes : DocumentAttributes
  /-- The module of declarations that tell no other. -/
  defaultModule : String

/-- The options of a run that tells none. -/
def SourceOptions.usual : SourceOptions := ⟨"5.4", .empty, "Game"⟩

namespace FileTree

/-- The source files under a directory, in the order of their paths, without those that the pattern is found in. -/
def sourceFiles (t : FileTree) (directory : Path) (ignore : Option Pattern) : List Path :=
  (t.walk directory).filter fun p =>
    p.extension? == some "cs" && !ignore.any fun pattern => pattern.isFoundIn p.withSlashes

/-- A text that a document is made from. -/
def readInput (t : FileTree) (p : Path) : Except DocumentError String :=
  match t.readText p with
  | .ok s => .ok s
  | .error _ => .error (.unreadable p.text)

/-- The exported declarations of a source file. -/
def exportedDecls (t : FileTree) (p : Path) : Except DocumentError (List TypeDecl) := do
  let text ← t.readInput p
  match Source.parseFile text with
  | .ok decls => return decls.filter (·.isExported)
  | .error d => throw (.unparsable p.text [d.render p.text])

/-- The exported declarations of source files, in order. -/
def exportedDeclsOf (t : FileTree) (files : List Path) : Except DocumentError (List TypeDecl) := do
  return (← files.mapM t.exportedDecls).flatten

/-- A saved document, if it is consistent. -/
def loadDocument (t : FileTree) (p : Path) : Except DocumentError Document := do
  let text ← t.readInput p
  match Document.ofText? text with
  | none => throw (.malformed p.text)
  | some d =>
    d.validate
    return d

/-- The manifest of an assembly. -/
def loadManifest (t : FileTree) (p : Path) : Except DocumentError AssemblyManifest := do
  let text ← t.readInput p
  match AssemblyManifest.ofText? text with
  | none => throw (.malformed p.text)
  | some m => return m

/-- The document of source files. -/
def documentOfSources (t : FileTree) (input : Path) (o : SourceOptions) : Except DocumentError Document := do
  let files := if t.isDirectory input then t.sourceFiles input none else [input]
  let decls ← t.exportedDeclsOf files
  Document.ofDecls decls o.defaultModule o.engineVersion o.attributes

/-- The document of an assembly: the manifest's declarations and what they reach among the companion sources. -/
def documentOfAssembly (t : FileTree) (input : Path) (o : SourceOptions) (companions : List Path) :
    Except DocumentError Document := do
  let m ← t.loadManifest input
  let sources ← t.exportedDeclsOf companions
  let attributes :=
    if m.allowFastInvoke then o.attributes.union DocumentAttributes.allowFastInvoke else o.attributes
  Document.ofDecls (m.crossReference sources) m.assembly (m.engineVersion.getD o.engineVersion) attributes

/-- The document of an input, which is consistent. -/
def makeDocument (t : FileTree) (kind : SourceKind) (input : Path) (o : SourceOptions) (companions : List Path) :
    Except DocumentError Document :=
  if !t.isThere input then .error (.missingInput input.text)
  else match kind with
    | .savedDocument => t.loadDocument input
    | .sourceCode => t.documentOfSources input o
    | .assembly => t.documentOfAssembly input o companions

/-- Under which name the document of an input is kept, if it is kept. -/
def cacheFileName (t : FileTree) (kind : SourceKind) (input : Path) : Option String :=
  match kind with
  | .savedDocument => none
  | .assembly => input.fileName?.map (· ++ ".tmp.json")
  | .sourceCode =>
    (if t.isDirectory input then input.fileName? else input.fileStem?).map (· ++ ".Bindings.Defs.tmp.json")

end FileTree
end EngineBridge
