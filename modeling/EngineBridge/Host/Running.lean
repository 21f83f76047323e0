import EngineBridge.Host.Backend
import EngineBridge.Host.Reflection

/-! Hosts and what they do while a runtime runs. Calls are taken only then: functions of the engine are bound and
invoked, and requests go to the managed side. -/

namespace EngineBridge

/-- A runtime that runs. -/
structure Runtime (σ β ρ : Type) where
  backend : Backend σ β
  /-- The backend's own state. -/
  state : β
  /-- The source of the functions that have no trampoline. -/
  reflection : ρ
  /-- The functions that have a trampoline; of entries with one name the first counts. -/
  direct : List (FunctionId × DirectInvocable σ)

/-- A host in a stage of its life. -/
inductive Host (σ β ρ : Type)
  | uninitialized
  | loading
  /-- The number tells this life of a host from every other. -/
  | ready (generation : Nat) (runtime : Runtime σ β ρ)
  | shuttingDown
  | terminated (failure : Option String)
  | failed (reason : String)

/-- What a bound function calls. -/
inductive Invocable (σ ρ : Type)
  | direct (d : DirectInvocable σ)
  /-- The function is looked up anew at each call. -/
  | lookup (id : FunctionId) (reflection : ρ)

namespace Invocable
variable {σ ρ : Type}

/-- The function. -/
def id : Invocable σ ρ → FunctionId
  | direct d => d.id
  | lookup id _ => id

/-- The function has a trampoline. -/
def isDirect : Invocable σ ρ → Bool
  | direct _ => true
  | lookup _ _ => false

/-- Calls the function; `sources` tells what stands behind the names of sources. -/
def invoke (sources : ρ → Reflection σ) : Invocable σ ρ → Call σ Value
  | direct d => d.invoke
  | lookup id reflection => (sources reflection).call id

end Invocable

/-- The right to call a function through a host, for the life in which it was given. -/
structure Binding (σ ρ : Type) where
  generation : Nat
  target : Invocable σ ρ

namespace Runtime
variable {σ β ρ : Type}

/-- What calls of a function go to. -/
def target (r : Runtime σ β ρ) (id : FunctionId) : Invocable σ ρ :=
  match r.direct.lookup id with
  | some d => .direct d
  | none => .lookup id r.reflection

/-- The functions that have a trampoline, in their order. -/
def directFunctions (r : Runtime σ β ρ) : List FunctionId := FunctionId.sorted (r.direct.map (·.1))

/-- Hands a request to the backend. -/
def dispatch (r : Runtime σ β ρ) (request : List UInt8) (capacity : Nat) : Action σ HostError DispatchAnswer :=
  Action.mapError .runtime (r.backend.dispatch r.state request (Buffer.zeroed capacity))

end Runtime

namespace Host
variable {σ β ρ : Type}

/-- The stage of the host's life. -/
def state : Host σ β ρ → HostState
  | uninitialized => .uninitialized
  | loading => .loading
  | ready _ _ => .ready
  | shuttingDown => .shuttingDown
  | terminated _ => .terminated
  | failed _ => .failed

/-- Why the host could not be started. -/
def failure? : Host σ β ρ → Option String
  | terminated failure => failure
  | failed reason => some reason
  | _ => none

/-- The runtime of a host that takes calls, and the number of its life. -/
def running : Host σ β ρ → Except HostError (Nat × Runtime σ β ρ)
  | ready generation runtime => .ok (generation, runtime)
  | failed reason => .error (.unavailable reason)
  | _ => .error .notInitialized

/-- The functions that have a trampoline, in their order. -/
def directFunctions : Host σ β ρ → List FunctionId
  | ready _ runtime => runtime.directFunctions
  | _ => []

/-- Binds a function. -/
def bind (h : Host σ β ρ) (id : FunctionId) : Except HostError (Binding σ ρ) := do
  let (generation, runtime) ← h.running
  return ⟨generation, runtime.target id⟩

/-- Calls a bound function. -/
def invoke (h : Host σ β ρ) (sources : ρ → Reflection σ) (b : Binding σ ρ) : Call σ Value := do
  let (generation, _) ← Action.ofExcept h.running
  if b.generation ≠ generation then Action.fail .notInitialized
  b.target.invoke sources

/-- How many bytes a response may have at first. -/
def firstCapacity : Nat := 256

/-- Hands a request to the managed side, with room for a response of `capacity` bytes. A dispatcher that asks for more
room gets it, once. `label` names the request in errors. -/
def forward (h : Host σ β ρ) (label : String) (request : List UInt8) (capacity : Nat) :
    Action σ HostError (List UInt8) := do
  let (_, runtime) ← Action.ofExcept h.running
  let first ← runtime.dispatch request capacity
  let answer ← match first.status with
    | .bufferTooSmall needed => if capacity < needed then runtime.dispatch request needed else pure first
    | _ => pure first
  match answer.status with
  | .completed written => return answer.response.take written
  | .bufferTooSmall needed =>
    Action.fail (.runtime (.protocol (label ++ " needs " ++ toString needed ++ " response bytes after retry")))
  | .exception text => Action.fail (.managedException text)
  | .methodNotFound => Action.fail (.unknownFunction label)

end Host
end EngineBridge
