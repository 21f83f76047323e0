import EngineBridge.Export.Manifest
import EngineBridge.Host.Error
import EngineBridge.Host.Native

/-! Calls of trampolines. The arguments are packed into a frame, and what the trampoline left in the frame replaces
those that go out. Nothing is called unless every argument that goes in could be packed. -/

namespace EngineBridge

/-- What a call works on: the world outside, and its arguments. -/
structure CallState (σ : Type) where
  world : σ
  args : List Value

/-- What happens within a call of a function of the engine. -/
abbrev Call (σ α : Type) := Action (CallState σ) HostError α

namespace Call
variable {σ α : Type}

/-- What the world does. -/
def outside (a : StateM σ α) : Call σ α := do
  let c ← get
  let (result, world) := a.run c.world
  set { c with world }
  return result

/-- An action on the world, within a call. -/
def inWorld (a : Action σ HostError α) : Call σ α :=
  Action.within (·.world) (fun world c => { c with world }) a

/-- Replaces an argument. -/
def replace (index : Nat) (v : Value) : Call σ Unit :=
  modify fun c => { c with args := c.args.set index v }

/-- The number of arguments is the expected one. -/
def checkCount (function : String) (expected : Nat) : Call σ Unit := do
  let given := (← get).args.length
  if given ≠ expected then Action.fail (.marshal (.argumentCount function expected given))

end Call

namespace Buffer

/-- The largest size that memory can have. -/
def sizeLimit : Nat := 9223372036854775800

/-- Fresh memory. -/
def allocated {σ : Type} (size : Nat) : Action σ HostError Buffer :=
  if sizeLimit < size then Action.crash else return zeroed size

/-- The value at a place of a buffer. -/
def load {σ : Type} (b : Buffer) (offset : Nat) (r : NativeRepr) : Action σ HostError Value := do
  match ((read offset r).runOn b).1 with
  | .ok v => return v
  | .error (.failed e) => Action.fail (.marshal (.buffer e))
  | .error .crashed => Action.crash

end Buffer

/-- A function that has a trampoline. -/
structure DirectInvocable (σ : Type) where
  id : FunctionId
  symbol : String
  layout : FrameLayout
  trampoline : Trampoline σ

namespace DirectInvocable
variable {σ : Type}

/-- The function of an entry of the index. -/
def ofEntry (e : TrampolineEntry) (f : Trampoline σ) : DirectInvocable σ := ⟨e.id, e.symbol, e.layout, f⟩

/-- Puts the arguments that go in into their slots. -/
def pack (id : FunctionId) : List FrameSlot → List Value → Action Buffer HostError Unit
  | s :: ss, v :: vs => do
    if s.direction.takesIn then
      Action.mapError (fun e => .marshal (.argument id s.name e)) (Buffer.write s.offset s.repr v)
    pack id ss vs
  | _, _ => return

/-- The frame with the arguments in it. -/
def frame (d : DirectInvocable σ) (args : List Value) : Call σ Buffer := do
  let empty ← Buffer.allocated d.layout.size
  let (result, packed) := (pack d.id d.layout.slots args).runOn empty
  match result with
  | .ok () => return packed
  | .error stop => throw stop

/-- Replaces the arguments that go out, from the slot with the given number on. -/
def unpack (frame : Buffer) : Nat → List FrameSlot → Call σ Unit
  | _, [] => return
  | index, s :: ss => do
    if s.direction.writesBack then Call.replace index (← frame.load s.offset s.repr)
    unpack frame (index + 1) ss

/-- Calls the function. -/
def invoke (d : DirectInvocable σ) : Call σ Value := do
  Call.checkCount d.id.display d.layout.argCount
  let frame ← d.frame (← get).args
  let ret ← Buffer.allocated d.layout.returnSize
  let answer ← Call.outside (d.trampoline frame d.layout.argCount ret)
  if answer.status ≠ 0 then Action.fail (.nativeCallFailed d.id answer.status)
  unpack (frame.kept answer.frame) 0 d.layout.slots
  match d.layout.ret with
  | some r => (ret.kept answer.ret).load 0 r
  | none => return .void

end DirectInvocable
end EngineBridge
