import EngineBridge.Layout.Repr

/-! The packed arguments of a function. An instance function has its receiver in front; each parameter follows in the
order of its declaration, at the next multiple of its alignment. -/

namespace EngineBridge

/-- The place of one argument. -/
structure FrameSlot where
  name : String
  offset : Nat
  direction : Direction
  repr : NativeRepr
deriving BEq, Repr

/-- Where the arguments of a function lie, and how its value is returned. -/
structure FrameLayout where
  /-- The first slot is the receiver. -/
  receiver : Bool
  slots : List FrameSlot
  size : Nat
  align : Nat
  ret : Option NativeRepr
deriving BEq, Repr

namespace FrameLayout

/-- The slot of the receiver. -/
def receiverSlot (owner : TypeRecord) : FrameSlot := ⟨"self", 0, .inward, .handle owner.nativeName⟩

/-- What a frame holds before its parameters. -/
def start (owner : TypeRecord) (f : FunctionRecord) : Packing FrameSlot :=
  if f.isStatic then .empty
  else Packing.empty.add (receiverSlot owner).repr fun offset => { receiverSlot owner with offset }

/-- The layout of a function's arguments. -/
def ofFunction (d : Document) (owner : TypeRecord) (f : FunctionRecord) : Except LayoutError FrameLayout := do
  let packing ← f.params.foldlM (fun (p : Packing FrameSlot) param => do
    let r ← d.nativeRepr param.type
    return p.add r fun offset => ⟨param.name, offset, param.direction, r⟩) (start owner f)
  let ret ← f.returnType.mapM d.nativeRepr
  return ⟨!f.isStatic, packing.placed, alignTo packing.offset packing.align, packing.align, ret⟩

/-- The number of slots. -/
def argCount (l : FrameLayout) : Nat := l.slots.length

/-- The slots of the parameters. -/
def params (l : FrameLayout) : List FrameSlot := if l.receiver then l.slots.drop 1 else l.slots

/-- The bytes of the returned value. -/
def returnSize (l : FrameLayout) : Nat :=
  match l.ret with
  | some r => r.size
  | none => 0

end FrameLayout
end EngineBridge
