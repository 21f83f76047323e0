import EngineBridge.Host.Backend
import EngineBridge.Host.Native

/-! The managed runtime Mono, driven through its embedding interface. -/

namespace EngineBridge

/-- What is known of a Mono runtime. -/
structure MonoState (σ : Type) where
  /-- The interface and the domain, once the runtime has started. -/
  started : Option (Embedding σ × Nat)
  /-- The assemblies that were loaded, by name; of two with one name the first counts. -/
  assemblies : List (String × Nat)
  /-- The thunk of the dispatcher. -/
  thunk : Option Nat

namespace Mono
variable {σ : Type}

/-- A runtime that has not started. -/
def fresh : MonoState σ := ⟨none, [], none⟩

/-- The version of the runtime that is asked for. -/
def version : String := "v4.0.30319"

/-- How many parameters the dispatcher has. -/
def dispatcherArity : Nat := 5

/-- The symbols that the runtime's library has to have, in the order in which they are looked up. -/
def requiredSymbols : List String :=
  ["mono_jit_init_version", "mono_set_assemblies_path", "mono_domain_assembly_open", "mono_assembly_get_image",
    "mono_class_from_name", "mono_class_get_method_from_name", "mono_method_get_unmanaged_thunk",
    "mono_object_to_string", "mono_string_to_utf8", "mono_free", "mono_jit_cleanup"]

/-- The operations of the runtime. -/
abbrev Operation (σ α : Type) := Action (σ × MonoState σ) RuntimeError α

/-- The text can end with a zero character. -/
def checkText (text : String) : Except RuntimeError Unit :=
  if text.toList.contains zeroChar then .error (.startFailed ("'" ++ text ++ "' contains a NUL byte")) else .ok ()

/-- The library of the runtime, if it has all that is needed. -/
def library (loader : Loader σ) (path : Path) : Except RuntimeError (Library σ) :=
  match loader.load path with
  | none => .error (.libraryLoad path)
  | some library =>
    match requiredSymbols.find? fun name => (library.symbol? name).isNone with
    | some name => .error (.missingEntryPoint name)
    | none => .ok library

/-- Starts the runtime. -/
def start (loader : Loader σ) (c : HostConfig) : Operation σ Unit := do
  if (← get).2.started.isSome then Action.fail (.startFailed "runtime already started")
  let library ← Action.ofExcept (library loader c.runtimePath)
  Action.ofExcept (checkText c.managedPath.text)
  Action.ofExcept (checkText c.appDomain)
  Backend.outside (library.embedding.setAssembliesPath c.managedPath.text)
  match ← Backend.outside (library.embedding.bootDomain c.appDomain version) with
  | none => Action.fail (.startFailed "mono_jit_init_version returned no domain")
  | some domain => modify fun (world, s) => (world, { s with started := some (library.embedding, domain) })

/-- The interface and the domain of the runtime. -/
def running : Operation σ (Embedding σ × Nat) := do
  match (← get).2.started with
  | none => Action.fail .notStarted
  | some running => return running

/-- Loads an assembly. It is known by the file's name without its ending. -/
def loadAssembly (path : Path) : Operation σ Unit := do
  let (embedding, domain) ← running
  let fault (reason : String) : RuntimeError := .assemblyLoad path reason
  match path.fileStem? with
  | none => Action.fail (fault "assembly path has no file name")
  | some name =>
    if path.text.toList.contains zeroChar then Action.fail (fault "path contains a NUL byte")
    match ← Backend.outside (embedding.openAssembly domain path.text) with
    | none => Action.fail (fault "mono_domain_assembly_open failed")
    | some assembly =>
      modify fun (world, s) => (world, { s with assemblies := (name, assembly) :: s.assemblies })

/-- The namespace and the name of a type. -/
def splitType (type : String) : String × String :=
  let cs := type.toList
  if cs.contains '.' then
    (String.ofList (cs.reverse.dropWhile (· ≠ '.')).reverse.dropLast,
      String.ofList (cs.reverse.takeWhile (· ≠ '.')).reverse)
  else ("", type)

/-- What a step on the way to the dispatcher gives. -/
def found (e : EntryPoint) {α : Type} : Option α → Operation σ α
  | some a => return a
  | none => Action.fail (.missingMethod e.qualified)

/-- Finds the entry of the dispatcher. -/
def resolveEntryPoint (e : EntryPoint) : Operation σ Unit := do
  let (embedding, _) ← running
  let assembly ← found e ((← get).2.assemblies.lookup e.assembly)
  let (space, name) := splitType e.type
  Action.ofExcept (checkText space)
  Action.ofExcept (checkText name)
  Action.ofExcept (checkText e.method)
  let image ← found e (← Backend.outside (embedding.assemblyImage assembly))
  let type ← found e (← Backend.outside (embedding.classFromName image space name))
  let method ← found e (← Backend.outside (embedding.methodFromName type e.method dispatcherArity))
  let thunk ← found e (← Backend.outside (embedding.unmanagedThunk method))
  modify fun (world, s) => (world, { s with thunk := some thunk })

/-- What is told of an exception that has no text. -/
def unhandled : String := "unhandled managed exception"

/-- The text of an exception. -/
def exceptionText (embedding : Embedding σ) (exception : Nat) : StateM σ String := do
  match ← embedding.objectText exception with
  | (some text, none) =>
    match ← embedding.textBytes text with
    | none => return unhandled
    | some bytes =>
      embedding.release
      return Utf8.lossy bytes
  | _ => return unhandled

/-- The size of a payload is a number of 32 bits. -/
def checkSize (size : Nat) : Except RuntimeError Unit :=
  if lengthLimit ≤ size then .error (.protocol ("payload of " ++ toString size ++ " bytes is too large")) else .ok ()

/-- Hands a request to the dispatcher. -/
def dispatch (s : MonoState σ) (request : List UInt8) (response : Buffer) :
    Action σ RuntimeError DispatchAnswer := do
  match s.started, s.thunk with
  | some (embedding, _), some thunk =>
    Action.ofExcept (checkSize request.length)
    Action.ofExcept (checkSize response.length)
    let (code, written, announced, exception) ← Action.sure (embedding.callThunk thunk request response)
    let response := response.kept written
    match exception with
    | some exception => return ⟨.exception (← Action.sure (exceptionText embedding exception)), response⟩
    | none => return ⟨← Action.ofExcept (DispatchStatus.ofRaw code response announced), response⟩
  | _, _ => Action.fail .notStarted

/-- Ends the runtime. -/
def shutdown : Action (σ × MonoState σ) Empty Unit := do
  match (← get).2.started with
  | none => modify fun (world, _) => (world, fresh)
  | some (embedding, domain) =>
    modify fun (world, _) => (world, fresh)
    Backend.outside (embedding.cleanup domain)

end Mono

/-- Mono as a backend of hosts. -/
def monoBackend {σ : Type} (loader : Loader σ) : Backend σ (MonoState σ) where
  start := Mono.start loader
  loadAssembly := Mono.loadAssembly
  resolveEntryPoint := Mono.resolveEntryPoint
  dispatch := Mono.dispatch
  shutdown := Mono.shutdown

end EngineBridge
