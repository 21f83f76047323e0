import EngineBridge.Host.Action
import EngineBridge.Host.Value
import EngineBridge.Layout.Repr
import EngineBridge.Number.Bytes

/-! Values in packed memory.

A value is stored at an offset as its representation says, and loaded from there. Representations may come from a file,
so that sizes and offsets are taken as they are: what does not fit is refused, and what the memory does not reach crashes. -/

namespace EngineBridge

/-- Bytes of memory. -/
abbrev Buffer := List UInt8

namespace Buffer

/-- So many zero bytes. -/
def zeroed (size : Nat) : Buffer := List.replicate size 0

/-- The bytes at a place. -/
def slice (b : Buffer) (offset size : Nat) : List UInt8 := (b.drop offset).take size

/-- The buffer with bytes put at a place. -/
def patched (b : Buffer) (offset : Nat) (bytes : List UInt8) : Buffer :=
  b.take offset ++ bytes ++ b.drop (offset + bytes.length)

/-- The buffer after something changed it, which cannot have gone beyond its ends. -/
def kept (b changed : Buffer) : Buffer := changed.take b.length ++ b.drop changed.length

end Buffer

/-- Why a value is not stored or loaded. -/
inductive BufferError
  | overrun (size offset length : Nat)
  | cannotStore (valueType nativeType : String)
  | doesNotFit (n : Int) (nativeType : String)
  | floatWidth (size : Nat)
  | integerWidth (size : Nat)
  | handleTooWide
  | fieldCount (type : String) (expected given : Nat)
  | byteCount (expected found : Nat)
deriving DecidableEq, Repr

namespace BufferError

def message : BufferError → String
  | overrun size offset length =>
    toString size ++ " bytes at offset " ++ toString offset ++ " overrun a " ++ toString length ++ "-byte buffer"
  | cannotStore valueType nativeType => "cannot store " ++ valueType ++ " as " ++ nativeType
  | doesNotFit n nativeType => toString n ++ " does not fit in " ++ nativeType
  | floatWidth size => "unsupported float width " ++ toString size
  | integerWidth size => "unsupported integer width " ++ toString size
  | handleTooWide => "handle exceeds pointer width"
  | fieldCount type expected given =>
    type ++ " has " ++ toString expected ++ " fields, got " ++ toString given
  | byteCount expected found => "expected " ++ toString expected ++ " bytes, found " ++ toString found

end BufferError

/-- An action on a buffer. -/
abbrev BufferAction (α : Type) := Action Buffer BufferError α

namespace Buffer

/-- The place lies within the buffer. -/
def checkPlace (offset size : Nat) : BufferAction Unit := do
  let length := (← get).length
  if length < offset + size then Action.fail (.overrun size offset length)

/-- Bytes to or from a place that the buffer has to reach. -/
def require (offset size : Nat) : BufferAction Unit := do
  if (← get).length < offset + size then Action.crash

/-- Stores bytes. -/
def put (offset : Nat) (bytes : List UInt8) : BufferAction Unit := do
  require offset bytes.length
  modify (·.patched offset bytes)

/-- The integer type of that size. -/
def integerType? (signed : Bool) (size : Nat) : Option IntegerType :=
  match size, signed with
  | 1, true => some .int8
  | 2, true => some .int16
  | 4, true => some .int32
  | 8, true => some .int64
  | 1, false => some .uint8
  | 2, false => some .uint16
  | 4, false => some .uint32
  | 8, false => some .uint64
  | _, _ => none

/-- The bytes of a number that a place of that size can hold. -/
def integerBytes? (signed : Bool) (size : Nat) (n : Int) : Option (List UInt8) := do
  let type ← integerType? signed size
  if type.holds n then some (bytesOf size (n % type.count).toNat) else none

/-- The number that is stored as an integer. Truth values and handles are not numbers here. -/
def storable? : Value → Option Int
  | .bool _ | .handle _ => none
  | v => v.integer?

/-- Stores a value that is no struct. -/
def writeScalar (kind : ScalarKind) (size : Nat) (nativeType : String) (offset : Nat) (v : Value) :
    BufferAction Unit := do
  let mismatch : BufferAction Unit := Action.fail (.cannotStore v.typeName nativeType)
  match kind, v with
  | .bool, .bool b => put offset [if b then 1 else 0]
  | .integer signed, v | .enum _ signed, v =>
    match storable? v with
    | none => mismatch
    | some n =>
      match integerBytes? signed size n with
      | some bytes => put offset bytes
      | none => Action.fail (.doesNotFit n nativeType)
  | .float, v =>
    match v.double?, size with
    | none, _ => mismatch
    | some bits, 4 => put offset (bytesOf 4 (narrowed bits).toNat)
    | some bits, 8 => put offset (bytesOf 8 bits.toNat)
    | some _, n => Action.fail (.floatWidth n)
  | .objectHandle, .handle address =>
    match integerBytes? false size address.toNat with
    | some bytes => put offset bytes
    | none => Action.fail .handleTooWide
  | .name, .name index number =>
    put offset (bytesOf 4 index.toNat)
    if size ≠ 8 then Action.crash
    put (offset + 4) (bytesOf 4 number.toNat)
  | _, _ => mismatch

/-- How far offsets go. -/
def addressLimit : Nat := UInt64.size

/-- The offset of a part. Beyond the last address there is none. -/
def partOffset (offset inner : Nat) : BufferAction Nat :=
  if offset + inner < addressLimit then return offset + inner else Action.crash

mutual
/-- Stores a value. -/
def write (offset : Nat) : NativeRepr → Value → BufferAction Unit
  | .scalar kind size _ nativeType, v => do
    checkPlace offset size
    writeScalar kind size nativeType offset v
  | .aggregate type fields size _ nativeType, v => do
    checkPlace offset size
    match v with
    | .struct values =>
      if values.length = fields.length then writeFields offset fields values
      else Action.fail (.fieldCount type fields.length values.length)
    | v => Action.fail (.cannotStore v.typeName nativeType)

/-- Stores the fields of a struct. -/
def writeFields (offset : Nat) : List (Placed NativeRepr) → List Value → BufferAction Unit
  | ⟨_, inner, r⟩ :: fs, v :: vs => do
    write (← partOffset offset inner) r v
    writeFields offset fs vs
  | _, _ => return
end

/-- The number at a place. -/
def readInteger (signed : Bool) (bytes : List UInt8) : BufferAction TypedInteger :=
  match integerType? signed bytes.length with
  | some type => return .ofBits type (numberOf bytes)
  | none => Action.fail (.integerWidth bytes.length)

/-- The value of bytes that are no struct. -/
def readScalar (kind : ScalarKind) (bytes : List UInt8) : BufferAction Value :=
  match kind with
  | .bool =>
    match bytes with
    | [] => Action.crash
    | b :: _ => return .bool (b != 0)
  | .integer signed => do return .integer (← readInteger signed bytes)
  | .enum _ signed => do return .enum (Int64.ofInt (← readInteger signed bytes).value)
  | .float =>
    match bytes.length with
    | 4 => return .float (.ofNat (numberOf bytes))
    | 8 => return .double (.ofNat (numberOf bytes))
    | n => Action.fail (.floatWidth n)
  | .objectHandle => do return .handle (UInt64.ofInt (← readInteger false bytes).value)
  | .name =>
    if bytes.length < 4 then Action.crash
    else if bytes.length ≠ 8 then Action.fail (.byteCount 4 (bytes.length - 4))
    else return .name (.ofNat (numberOf (bytes.take 4))) (.ofNat (numberOf (bytes.drop 4)))

mutual
/-- Loads a value. -/
def read (offset : Nat) : NativeRepr → BufferAction Value
  | .scalar kind size _ _ => do
    checkPlace offset size
    readScalar kind ((← get).slice offset size)
  | .aggregate _ fields size _ _ => do
    checkPlace offset size
    return .struct (← readFields offset fields)

/-- Loads the fields of a struct. -/
def readFields (offset : Nat) : List (Placed NativeRepr) → BufferAction (List Value)
  | [] => return []
  | ⟨_, inner, r⟩ :: fs => do
    let v ← read (← partOffset offset inner) r
    let vs ← readFields offset fs
    return v :: vs
end

end Buffer
end EngineBridge
