import EngineBridge.Host.Direct
import EngineBridge.Host.Foreign

/-! Calls of functions by name. Handlers may be registered for functions; functions of a library are called by the
signature that a document gives them; and several sources may stand behind one another. -/

namespace EngineBridge

/-- A source of functions. -/
structure Reflection (σ : Type) where
  contains : FunctionId → Bool
  call : FunctionId → Call σ Value

namespace Reflection
variable {σ : Type}

/-- The function is not known. -/
def unknown (id : FunctionId) : Call σ Value := Action.fail (.unknownFunction id.display)

/-- Sources one behind the other: the first that has a function calls it. -/
def chain (sources : List (Reflection σ)) : Reflection σ where
  contains id := sources.any (·.contains id)
  call id :=
    match sources.find? (·.contains id) with
    | some source => source.call id
    | none => unknown id

end Reflection

/-- Functions for which handlers were registered. -/
structure Registry (η : Type) where
  handlers : List (FunctionId × η)
deriving Repr

namespace Registry
variable {η σ : Type}

/-- No handlers. -/
def empty : Registry η := ⟨[]⟩

/-- The handler of a function. -/
def find? (r : Registry η) (id : FunctionId) : Option η := r.handlers.lookup id

/-- The registry without a function. -/
def unregister (r : Registry η) (id : FunctionId) : Registry η := ⟨r.handlers.filter fun h => h.1 ≠ id⟩

/-- Registers a handler; one of the same function goes. -/
def register (r : Registry η) (id : FunctionId) (handler : η) : Registry η :=
  ⟨(id, handler) :: (r.unregister id).handlers⟩

def size (r : Registry η) : Nat := r.handlers.length

def isEmpty (r : Registry η) : Bool := r.handlers.isEmpty

/-- The registry as a source; `run` is what handlers do. -/
def reflection (r : Registry η) (run : η → Call σ Value) : Reflection σ where
  contains id := (r.find? id).isSome
  call id :=
    match r.find? id with
    | some handler => run handler
    | none => Reflection.unknown id

end Registry

/-- How a parameter goes into a native call. -/
inductive NativeParam
  | byValue (r : NativeRepr)
  | text
  | byPointer (r : NativeRepr)
deriving BEq, Repr

/-- What comes out of a native call. -/
inductive NativeReturn
  | nothing
  | scalar (kind : ScalarKind) (size : Nat)
  | text
deriving DecidableEq, Repr

namespace TypeRef

/-- The type is one of the two kinds of text. -/
def isText : TypeRef → Bool
  | .string | .text => true
  | _ => false

end TypeRef

/-- Functions of a library, or of the process, under the symbols that stand for them. -/
structure SymbolReflection (σ : Type) where
  document : Document
  lookup : String → Option (Symbol σ)
  /-- Symbols of functions that have another than the usual one. -/
  symbols : List (FunctionId × String)

namespace SymbolReflection
variable {σ : Type}

/-- The functions of a library. -/
def ofLibrary (d : Document) (l : Library σ) : SymbolReflection σ := ⟨d, l.symbol?, []⟩

/-- The functions of the process. -/
def ofProcess (d : Document) (loader : Loader σ) : SymbolReflection σ where
  document := d
  lookup name := if name = "" || name.toList.contains zeroChar then none else loader.process.symbols name
  symbols := []

/-- Gives a function another symbol. -/
def bind (s : SymbolReflection σ) (id : FunctionId) (symbol : String) : SymbolReflection σ :=
  { s with symbols := (id, symbol) :: s.symbols }

/-- The symbol and the record of a function. -/
def function? (s : SymbolReflection σ) (id : FunctionId) : Option (String × FunctionRecord) := do
  let owner ← s.document.type? id.type
  let f ← owner.function? id.function
  return ((s.symbols.lookup id).getD (owner.nativeName ++ "_" ++ f.name), f)

/-- The receiver of an instance function. -/
def receiver : NativeRepr := .number .objectHandle NativeRepr.pointerSize "void*"

/-- A part of the signature that cannot be in a native call. -/
def unsupported {α : Type} (id : FunctionId) (part : String) : Except HostError α :=
  .error (.marshal (.cannotCross id part))

/-- How a parameter goes into the call. -/
def param (d : Document) (id : FunctionId) (p : ParamRecord) : Except HostError NativeParam :=
  if p.type.isText then
    if p.direction.writesBack then unsupported id ("out string '" ++ p.name ++ "'") else .ok .text
  else
    match d.nativeRepr p.type with
    | .error e => unsupported id ("'" ++ p.name ++ "' (" ++ e.message ++ ")")
    | .ok r => .ok (if p.direction.writesBack then .byPointer r else .byValue r)

/-- What comes out of the call. -/
def returned (d : Document) (id : FunctionId) : Option TypeRef → Except HostError NativeReturn
  | none => .ok .nothing
  | some t =>
    if t.isText then .ok .text
    else
      match d.nativeRepr t with
      | .error e => unsupported id ("return (" ++ e.message ++ ")")
      | .ok (.scalar .name _ _ nativeType) | .ok (.aggregate _ _ _ _ nativeType) =>
        unsupported id ("struct return " ++ nativeType)
      | .ok (.scalar kind size _ _) => .ok (.scalar kind size)

/-- How a function is called. -/
structure Signature where
  params : List NativeParam
  ret : NativeReturn
deriving BEq, Repr

/-- The signature of a function: the receiver comes first. -/
def signature (d : Document) (id : FunctionId) (f : FunctionRecord) : Except HostError Signature := do
  let params ← f.params.mapM (param d id)
  let ret ← returned d id f.returnType
  return ⟨(if f.isStatic then [] else [.byValue receiver]) ++ params, ret⟩

/-- Memory that holds a value. -/
def stored {τ : Type} (r : NativeRepr) (v : Value) : Action τ HostError Buffer := do
  let (result, b) := (Buffer.write 0 r v).runOn (Buffer.zeroed r.size)
  match result with
  | .ok () => return b
  | .error (.failed e) => Action.fail (.marshal (.buffer e))
  | .error .crashed => Action.crash

/-- The argument with the given number. -/
def argument {τ : Type} (index : Nat) (p : NativeParam) (v : Value) : Action τ HostError NativeArgument :=
  match p with
  | .byValue r => do return .value (← stored r v)
  | .text =>
    match v.string? with
    | none => Action.fail (.marshal (.notText index))
    | some s =>
      if s.toList.contains zeroChar then Action.fail (.marshal .zeroInText) else return .text (Utf8.encode s)
  | .byPointer r =>
    match v with
    | .void => return .storage (Buffer.zeroed r.size)
    | v => do return .storage (← stored r v)

/-- The arguments from the given number on. -/
def arguments {τ : Type} : Nat → List NativeParam → List Value → Action τ HostError (List NativeArgument)
  | index, p :: ps, v :: vs => do
    let a ← argument index p v
    let as ← arguments (index + 1) ps vs
    return a :: as
  | _, _, _ => return []

/-- The parameter can be in a call. -/
def isCallable : NativeParam → Bool
  | .byValue r => r.foreignType.isCallable
  | .text | .byPointer _ => true

/-- The value of a result. -/
def resultValue {τ : Type} (ret : NativeReturn) (result : NativeResult) : Action τ HostError Value :=
  match ret, result with
  | .nothing, _ => return .void
  | .text, .text (some bytes) => return .string (Utf8.lossy bytes)
  | .text, _ => return .string ""
  | .scalar kind size, result => do
    let bytes := match result with
      | .bytes bytes => bytes
      | _ => []
    match ((Buffer.readScalar kind ((Buffer.zeroed size).kept bytes)).runOn []).1 with
    | .ok v => return v
    | .error (.failed e) => Action.fail (.marshal (.buffer e))
    | .error .crashed => Action.crash

/-- What storage holds after a call that answered for it, or did not. -/
def left (before : Buffer) : Option NativeArgument → Buffer
  | some (.storage b) => before.kept b
  | _ => before

/-- Replaces the arguments that went out by what their storage holds, from the given number on. -/
def unpack : Nat → List NativeParam → List NativeArgument → List NativeArgument →
    Call σ Unit
  | index, .byPointer r :: ps, .storage before :: as, answers => do
    Call.replace index (← (left before answers.head?).load 0 r)
    unpack (index + 1) ps as answers.tail
  | index, _ :: ps, _ :: as, answers => unpack (index + 1) ps as answers.tail
  | _, _, _, _ => return

/-- Calls a function. -/
def call (s : SymbolReflection σ) (id : FunctionId) : Call σ Value := do
  match s.function? id with
  | none => Reflection.unknown id
  | some (symbol, f) =>
    let signature ← Action.ofExcept (signature s.document id f)
    match s.lookup symbol with
    | none => Action.fail (.unknownFunction (id.display ++ " (symbol " ++ symbol ++ ")"))
    | some target =>
      Call.checkCount id.display signature.params.length
      let args ← arguments 0 signature.params (← get).args
      if !signature.params.all isCallable then Action.crash
      let answer ← Call.outside (target.function args)
      let result ← resultValue signature.ret answer.result
      unpack 0 signature.params args answer.arguments
      return result

/-- The functions as a source. -/
def reflection (s : SymbolReflection σ) : Reflection σ where
  contains id :=
    match s.function? id with
    | some (symbol, _) => (s.lookup symbol).isSome
    | none => false
  call := s.call

end SymbolReflection
end EngineBridge
