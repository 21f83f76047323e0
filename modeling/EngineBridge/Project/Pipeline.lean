import EngineBridge.Export.Write
import EngineBridge.Project.Source

/-! A generating run: the inputs are checked, a document is made and kept, and the stages write trampolines, wrappers and
placeholders in that order. Stages go on past what fails; their reports give one verdict. -/

namespace EngineBridge

/-- What a run is asked to do. -/
structure RunOptions where
  kind : SourceKind
  input : Path
  project : Path
  /-- Where the companion sources of an assembly are. -/
  sourceDirectory : Option Path
  ignore : Option Pattern
  schema : BindingSchema
  source : SourceOptions

/-- Why a run gives no summary, or what its verdict is. -/
inductive RunError
  /-- The inputs were refused before anything was done. -/
  | refused (reason : String)
  | document (e : DocumentError)
  | exporting (e : ExportError)
  | stageFailed (stage : Stage) (failures : Nat)
deriving DecidableEq, Repr

namespace RunError

/-- The name of the kind of error. -/
def kind : RunError → String
  | refused _ => "Validation"
  | document e => e.kind
  | exporting e => e.kind
  | stageFailed _ _ => "StageFailed"

def message : RunError → String
  | refused reason => reason
  | document e => e.message
  | exporting e => e.message
  | stageFailed stage failures => stage.name ++ " export failed with " ++ toString failures ++ " error(s)"

/-- What the user is shown: one line for each diagnostic. -/
def display : RunError → String
  | document (.unparsable _ diagnostics) => String.intercalate "\n" diagnostics
  | e => e.message

end RunError

/-- What a run did. -/
structure RunSummary where
  fast : List FunctionId
  trampolineRoot : Option Path
  /-- Where the document was kept. -/
  checkpoint : Option Path
  reports : List Report

namespace RunSummary

def isSuccess (s : RunSummary) : Bool := s.reports.all (·.isSuccess)

/-- All that did not succeed. -/
def problems (s : RunSummary) : List String := s.reports.flatMap (·.problems)

def report? (s : RunSummary) (stage : Stage) : Option Report := s.reports.find? (·.stage == stage)

/-- The first stage that failed. -/
def verdict (s : RunSummary) : Except RunError Unit :=
  match s.reports.find? (!·.isSuccess) with
  | some r => .error (.stageFailed r.stage r.failures)
  | none => .ok ()

end RunSummary

namespace RunOptions

/-- The inputs are there. -/
def validate (o : RunOptions) (t : FileTree) : Except RunError Unit := do
  if !t.isDirectory o.project then
    throw (.refused ("project directory '" ++ o.project.text ++ "' does not exist"))
  if !t.isThere o.input then throw (.refused ("input path '" ++ o.input.text ++ "' does not exist"))
  if o.kind = .assembly then
    match o.sourceDirectory with
    | none => throw (.refused "assembly mode requires a source directory")
    | some directory =>
      if !t.isDirectory directory then
        throw (.refused ("source directory '" ++ directory.text ++ "' does not exist"))

/-- The companion sources of an assembly. -/
def companions (o : RunOptions) (t : FileTree) : List Path :=
  match o.kind, o.sourceDirectory with
  | .assembly, some directory => t.sourceFiles directory o.ignore
  | _, _ => []

/-- The document of the input. -/
def makeDocument (o : RunOptions) (t : FileTree) : Except DocumentError Document :=
  t.makeDocument o.kind o.input o.source (o.companions t)

/-- Keeps the document, if the kind of input asks for it; that it cannot be written does not matter. -/
def checkpoint (o : RunOptions) (t : FileTree) (d : Document) : FileTree × Option Path :=
  match t.cacheFileName o.kind o.input with
  | none => (t, none)
  | some name =>
    let p := (o.project.join ⟨"Intermediate/SharpBind"⟩).join ⟨name⟩
    match t.write p d.toText.toUTF8 with
    | (t, .ok ()) => (t, some p)
    | (t, .error _) => (t, none)

/-- The trampolines, where they are made: the functions that have one, and what the stage reports. -/
def writeTrampolines (t : FileTree) (c : BindingContext) :
    FileTree × Except ContextError BindingContext × Option Trampoline.Output :=
  if c.fastInvokeEnabled then
    let (t, output) := Trampoline.writeOut t c
    (t, c.install output.functions, some output)
  else (t, .ok c, none)

/-- Runs all stages on a document. -/
def generate (o : RunOptions) (t : FileTree) (d : Document) : FileTree × Except RunError RunSummary :=
  let context := BindingContext.create d o.project o.schema
  let (t, installed, trampolines) := writeTrampolines t context
  match installed with
  | .error e => (t, .error (.exporting (.context e)))
  | .ok context =>
    match Wrapper.writeOut t context with
    | (t, .error e) => (t, .error (.exporting (.context e)))
    | (t, .ok wrappers) =>
      let (t, placeholders) := Placeholder.writeOut t context
      (t, .ok {
        fast := context.fast.getD []
        trampolineRoot := trampolines.map (·.root)
        checkpoint := none
        reports := (trampolines.map (·.report)).toList ++ [wrappers.report, placeholders.report] })

/-- Checks the inputs, makes and keeps the document, and runs all stages. -/
def run (o : RunOptions) (t : FileTree) : FileTree × Except RunError RunSummary :=
  match o.validate t with
  | .error e => (t, .error e)
  | .ok () =>
    match o.makeDocument t with
    | .error e => (t, .error (.document e))
    | .ok d =>
      let (t, checkpoint) := o.checkpoint t d
      let (t, result) := o.generate t d
      (t, result.map fun summary => { summary with checkpoint })

end RunOptions
end EngineBridge
