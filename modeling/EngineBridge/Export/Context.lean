import EngineBridge.Export.Problem
import EngineBridge.Files.Path

/-! What a generating run works with: a document, the schema that says which members are bound and how, the directory
of the project, and the functions that have a trampoline once that is known. -/

namespace EngineBridge

/-- Which members are bound, and how they are called. -/
inductive BindingSchema
  /-- Trampolines and wrappers. -/
  | native
  /-- Wrappers of what scripts may use. -/
  | blueprint
  /-- Wrappers that look every function up. -/
  | managed
deriving DecidableEq, Repr

namespace BindingSchema

def name : BindingSchema → String
  | native => "NativeBinding"
  | blueprint => "BlueprintBinding"
  | managed => "CSharpBinding"

/-- The words that choose a schema. -/
def words : List (String × BindingSchema) :=
  [("native", native), ("nativebinding", native), ("blueprint", blueprint), ("blueprintbinding", blueprint),
   ("csharp", managed), ("csharpbinding", managed)]

/-- The schema of a word, whatever the case of its letters, or the message that it is none. -/
def parse (word : String) : Except String BindingSchema :=
  let lower := String.ofList (word.toList.map Char.toLower)
  match words.lookup lower with
  | some schema => .ok schema
  | none => .error ("unknown binding schema '" ++ lower ++ "'")

/-- Wrappers show the function. -/
def exposes (schema : BindingSchema) (f : FunctionRecord) : Bool :=
  let scripted := FunctionFlags.scriptCallable.union FunctionFlags.event
  match schema with
  | blueprint => f.flags.intersects scripted
  | native | managed => f.flags.intersects (FunctionFlags.nativeCallable.union scripted)

/-- Wrappers show the property. -/
def exposesProperty (schema : BindingSchema) (p : PropertyRecord) : Bool :=
  schema ≠ blueprint || p.flags.contains PropertyFlags.scriptVisible

end BindingSchema

/-- A function of a type. -/
structure Candidate where
  owner : TypeRecord
  function : FunctionRecord
deriving DecidableEq, Repr

/-- The name of the function. -/
def Candidate.id (c : Candidate) : FunctionId := ⟨c.owner.name, c.function.name⟩

/-- How a wrapper calls a function. -/
inductive Dispatch
  | direct
  | reflection
deriving DecidableEq, Repr

namespace Dispatch

def name : Dispatch → String
  | direct => "direct"
  | reflection => "reflection"

end Dispatch

/-- What a generating run works with. The fast functions are missing until the pass that makes their trampolines is
done. -/
structure BindingContext where
  document : Document
  root : Path
  schema : BindingSchema
  fast : Option (List FunctionId)

namespace BindingContext

/-- Trampolines are made: the schema asks for them and the document permits them. -/
def fastInvokeEnabled (c : BindingContext) : Bool := c.schema == .native && c.document.allowsFastInvoke

/-- The start of a run. Where no trampolines are made, it is known that no function has one. -/
def create (document : Document) (root : Path) (schema : BindingSchema) : BindingContext :=
  let c : BindingContext := ⟨document, root, schema, none⟩
  { c with fast := if c.fastInvokeEnabled then none else some [] }

def nativeRoot (c : BindingContext) : Path := c.root.join ⟨"Intermediate/SharpBind/Native"⟩

def managedRoot (c : BindingContext) : Path := c.root.join ⟨"Managed/Bindings"⟩

def definitionsRoot (c : BindingContext) : Path := c.root.join ⟨"Managed/Bindings.Defs"⟩

/-- A trampoline may be made for the function, if its layout allows it. -/
def isCandidate (c : BindingContext) (f : FunctionRecord) : Bool :=
  c.fastInvokeEnabled && f.flags.contains (FunctionFlags.fastInvokeEligible.union FunctionFlags.nativeCallable)
    && !f.isEvent

/-- The functions that a trampoline may be made for, in the order of the document. -/
def candidates (c : BindingContext) : List Candidate :=
  c.document.types.flatMap fun t => (t.functions.filter c.isCandidate).map (⟨t, ·⟩)

/-- Tells which functions have a trampoline; this can be done once. -/
def install (c : BindingContext) (functions : List FunctionId) : Except ContextError BindingContext :=
  match c.fast with
  | none => .ok { c with fast := some functions }
  | some _ => .error .alreadyInstalled

/-- The functions that have a trampoline. -/
def fastFunctions (c : BindingContext) : Except ContextError (List FunctionId) :=
  match c.fast with
  | none => .error .fastInvokePending
  | some functions => .ok functions

/-- How a function is called: directly exactly if it has a trampoline. -/
def dispatch (c : BindingContext) (id : FunctionId) : Except ContextError Dispatch := do
  return if (← c.fastFunctions).contains id then .direct else .reflection

end BindingContext

end EngineBridge
