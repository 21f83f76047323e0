import EngineBridge.CommandLine.Arguments

/-! What the commands do with a file tree, and what they print. -/

namespace EngineBridge.CommandLine

/-- What a run leaves for the user to see: the exit code and the lines on both channels. -/
structure Printed where
  exit : Nat
  out : List String
  err : List String
deriving DecidableEq, Repr

namespace SourceArguments

/-- The options of a run, without the pattern. -/
def options (a : SourceArguments) (project : Path) (schema : BindingSchema) : RunOptions where
  kind := a.kind
  input := a.input
  project := project
  sourceDirectory := a.sourceDirectory
  ignore := none
  schema := schema
  source := {
    engineVersion := a.engineVersion.getD SourceOptions.usual.engineVersion
    attributes := if a.allowFastInvoke then DocumentAttributes.allowFastInvoke else .empty
    defaultModule := a.module.getD SourceOptions.usual.defaultModule }

/-- Checks the inputs, and reads the pattern last. -/
def prepare (a : SourceArguments) (t : FileTree) (project : Path) (schema : BindingSchema) :
    Except RunError RunOptions := do
  let o := a.options project schema
  o.validate t
  match a.ignore with
  | none => return o
  | some text =>
    match Pattern.parse? text with
    | some pattern => return { o with ignore := some pattern }
    | none => throw (.refused "invalid source file ignore regex")

end SourceArguments

/-- A generating run that failed. -/
def failed (problems : List String) (reason : String) : Printed := ⟨1, problems ++ ["FAIL"], ["error: " ++ reason]⟩

/-- Generates code and prints what did not succeed. -/
def codegen (a : SourceArguments) (project : Path) (schema : BindingSchema) (t : FileTree) :
    FileTree × Printed :=
  match a.prepare t project schema with
  | .error e => (t, failed [] e.display)
  | .ok o =>
    match o.run t with
    | (t, .error e) => (t, failed [] e.display)
    | (t, .ok summary) =>
      match summary.verdict with
      | .ok () => (t, ⟨0, summary.problems ++ ["PASS"], []⟩)
      | .error e => (t, failed summary.problems e.message)

/-- Makes a document, and prints or writes it. -/
def document (a : SourceArguments) (output : Option Path) (t : FileTree) : FileTree × Printed :=
  match a.prepare t ⟨"."⟩ .native with
  | .error e => (t, ⟨1, [], ["error: " ++ e.display]⟩)
  | .ok o =>
    match o.makeDocument t with
    | .error e => (t, ⟨1, [], [(RunError.document e).display]⟩)
    | .ok d =>
      match output with
      | none => (t, ⟨0, [d.toText], []⟩)
      | some p =>
        match t.write p d.toText.toUTF8 with
        | (t, .ok ()) => (t, ⟨0, ["Document written to: " ++ p.text], []⟩)
        | (t, .error e) => (t, ⟨1, [], ["Failed to write document '" ++ p.text ++ "': " ++ e.message]⟩)

namespace Command

/-- Carries out a command. -/
def run (c : Command) (t : FileTree) : FileTree × Printed :=
  match c with
  | .codegen source project schema => CommandLine.codegen source project schema t
  | .document source output => CommandLine.document source output t

end Command
end EngineBridge.CommandLine
