import EngineBridge.Host.Launch
import EngineBridge.Host.Mono

/-! What an engine sees of the host of its process: operations that answer with numbers. Zero is success, the positive
number says that a response did not fit, negative ones stand for errors, and no crash gets through. A response that did
not fit is kept for the next invocation, which gets it if it repeats the request. -/

namespace EngineBridge

namespace Launch
variable {σ ρ : Type}

/-- A host with Mono and with the trampolines of the native module. -/
def usual (loader : Loader σ) (reflection : ρ) (config : HostConfig) : Launch σ (MonoState σ) ρ :=
  ⟨monoBackend loader, Mono.fresh, reflection, none, config⟩

end Launch

/-- The host of a process, and what it did not deliver. -/
structure Boundary (σ β ρ : Type) where
  setting : Setting σ β ρ
  /-- A request and its response, which did not fit. -/
  undelivered : Option (List UInt8 × List UInt8)

/-- An invocation as it comes from the engine. -/
structure Invocation where
  /-- The memory where the request begins, if its address leads anywhere. -/
  request : Option (List UInt8)
  requestLength : Int32
  capacity : Int32
  /-- There is a buffer for the response. -/
  hasResponse : Bool
  /-- There is a place for the response's length. -/
  hasLength : Bool
deriving DecidableEq, Repr

/-- What an invocation gives back. -/
structure Delivery where
  status : Int
  /-- The length of the response, if it was stored. -/
  length : Option Nat
  /-- What was put at the front of the buffer. -/
  written : List UInt8
deriving DecidableEq, Repr

namespace Boundary
variable {σ β ρ α : Type}

/-- A host that was not started yet. -/
def fresh (world : σ) : Boundary σ β ρ := ⟨.fresh world, none⟩

def successStatus : Int := 0

def tooSmallStatus : Int := 1

def crashStatus : Int := -100

/-- The number that stands for why an operation stopped. -/
def statusOf : Stop HostError → Int
  | .failed e => e.status
  | .crashed => crashStatus

/-- An operation on the host, with its outcome as a number. -/
def guarded (a : Action (Setting σ β ρ) HostError Unit) : StateM (Boundary σ β ρ) Int := fun b =>
  match a.runOn b.setting with
  | (.ok (), setting) => (successStatus, { b with setting })
  | (.error stop, setting) => (statusOf stop, { b with setting })

/-- A path that is given. An empty text is none. -/
def path? : Option String → Option Path
  | none | some "" => none
  | some text => some ⟨text⟩

/-- Starts the host. -/
def start (s : Surroundings σ) (launch : HostConfig → Launch σ β ρ) (base manifest nativeModule : Option String) :
    StateM (Boundary σ β ρ) Int :=
  guarded <|
    match path? base with
    | none => Action.fail (.marshal .missingBaseDirectory)
    | some base =>
      Setting.start s (launch { HostConfig.usual base with manifest := path? manifest, nativeModule := path? nativeModule })

/-- The number of the stage of the host's life. -/
def state (b : Boundary σ β ρ) : Nat := b.setting.host.state.code

/-- Ends the host's life. -/
def shutdown : StateM (Boundary σ β ρ) Int := guarded Setting.shutdown

/-- What names an engine's requests in errors. -/
def label : String := "engine request"

/-- The response to a request: the one that was kept for it, or else a new one. Nothing stays kept. -/
def response (request : List UInt8) (capacity : Nat) : Action (Boundary σ β ρ) HostError (List UInt8) := do
  let b ← get
  set { b with undelivered := none }
  match b.undelivered.filter (·.1 == request) with
  | some (_, response) => return response
  | none =>
    Action.within (·.setting.world) (fun world b => { b with setting := { b.setting with world } })
      (b.setting.host.forward label request capacity)

/-- Lengths are not negative, and there are buffers wherever something is to be read or written. -/
def checked (i : Invocation) : Except HostError (List UInt8) :=
  if i.requestLength < 0 || i.capacity < 0 then .error (.marshal .negativeLength)
  else
    match i.request with
    | none => .error (.marshal .missingBuffer)
    | some memory =>
      if !i.hasLength || (!i.hasResponse && i.capacity ≠ 0) then .error (.marshal .missingBuffer)
      else .ok (memory.take i.requestLength.toInt.toNat)

/-- Gets the response to an invocation and delivers it if it fits. -/
def deliver (i : Invocation) : Action (Boundary σ β ρ) HostError Delivery := do
  let request ← Action.ofExcept (checked i)
  let capacity := i.capacity.toInt.toNat
  let response ← response request capacity
  if lengthLimit ≤ response.length then Action.fail (.marshal .responseTooLarge)
  if capacity < response.length then
    modify fun b => { b with undelivered := some (request, response) }
    return ⟨tooSmallStatus, some response.length, []⟩
  return ⟨successStatus, some response.length, response⟩

/-- Hands a request to the managed side. -/
def invoke (i : Invocation) : StateM (Boundary σ β ρ) Delivery := fun b =>
  match (deliver i).runOn b with
  | (.ok delivery, b) => (delivery, b)
  | (.error stop, b) => (⟨statusOf stop, none, []⟩, b)

end Boundary
end EngineBridge
