import EngineBridge.Host.Config
import EngineBridge.Host.Error

/-! Managed runtimes as a host drives them: a runtime is started, loads assemblies, finds the entry of the dispatcher,
and then takes requests until it is shut down. -/

namespace EngineBridge

/-- The lengths that cross to a runtime are numbers of 32 bits with a sign. This is the first that is none. -/
def lengthLimit : Nat := 2147483648

/-- How a request ended. -/
inductive DispatchStatus
  | completed (written : Nat)
  | bufferTooSmall (needed : Nat)
  | exception (text : String)
  | methodNotFound
deriving DecidableEq, Repr

namespace DispatchStatus

/-- What a dispatcher's status means, with the response it wrote and the length it announced. -/
def ofRaw (code : Int32) (response : Buffer) (announced : Int32) : Except RuntimeError DispatchStatus :=
  let written := announced.toInt.toNat
  match code.toInt with
  | 0 => .ok (.completed (min written response.length))
  | 1 => .ok (.bufferTooSmall written)
  | 2 => .ok (.exception (Utf8.lossy (response.take written)))
  | 3 => .ok .methodNotFound
  | other => .error (.protocol ("unknown status " ++ toString other))

end DispatchStatus

/-- What a runtime makes of a request. -/
structure DispatchAnswer where
  status : DispatchStatus
  /-- The buffer for the response, as it is left. -/
  response : Buffer
deriving DecidableEq, Repr

/-- The operations of a managed runtime with a state of type `β` of its own, in a world of type `σ`. -/
structure Backend (σ β : Type) where
  start : HostConfig → Action (σ × β) RuntimeError Unit
  loadAssembly : Path → Action (σ × β) RuntimeError Unit
  resolveEntryPoint : EntryPoint → Action (σ × β) RuntimeError Unit
  /-- Hands a request to the dispatcher, with a buffer for the response. -/
  dispatch : β → List UInt8 → Buffer → Action σ RuntimeError DispatchAnswer
  shutdown : Action (σ × β) Empty Unit

namespace Backend
variable {σ β ε α : Type}

/-- What the world does, within an operation of a backend. -/
def outside (a : StateM σ α) : Action (σ × β) ε α := fun s =>
  let (result, world) := a.run s.1
  (.ok result, (world, s.2))

end Backend

end EngineBridge
