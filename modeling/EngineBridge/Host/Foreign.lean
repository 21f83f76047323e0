import EngineBridge.Host.Buffer

/-! The types of native calls: numbers, addresses, and records of them. A record is laid out field by field, each at the
next multiple of its alignment; a record without fields has no place in a call. -/

namespace EngineBridge

/-- The type of an argument or result of a native call. -/
inductive ForeignType
  | integer (type : IntegerType)
  | float
  | double
  | pointer
  | record (fields : List ForeignType)
deriving BEq, Repr

namespace NativeRepr

/-- The type under which a value that is no struct goes into a native call. -/
def scalarForeignType (kind : ScalarKind) (size : Nat) : ForeignType :=
  match kind with
  | .bool => .integer .uint8
  | .integer signed | .enum _ signed => .integer ((Buffer.integerType? signed size).getD .uint64)
  | .float => if size = 4 then .float else .double
  | .objectHandle => .pointer
  | .name => .record [.integer .uint32, .integer .uint32]

mutual
/-- The type under which a value goes into a native call. -/
def foreignType : NativeRepr → ForeignType
  | .scalar kind size _ _ => scalarForeignType kind size
  | .aggregate _ fields _ _ _ => .record (foreignTypes fields)

/-- The types of the fields of a struct. -/
def foreignTypes : List (Placed NativeRepr) → List ForeignType
  | [] => []
  | ⟨_, _, r⟩ :: fs => foreignType r :: foreignTypes fs
end

end NativeRepr

namespace ForeignType

/-- A size and an alignment. -/
structure Extent where
  size : Nat
  align : Nat
deriving DecidableEq, Repr

/-- What is as large as its alignment. -/
def natural (size : Nat) : Extent := ⟨size, size⟩

mutual
/-- How much room a type takes, if it can be in a call at all. -/
def extent? : ForeignType → Option Extent
  | .integer type => some (natural type.bytes)
  | .float => some (natural 4)
  | .double => some (natural 8)
  | .pointer => some (natural NativeRepr.pointerSize)
  | .record [] => none
  | .record (f :: fs) => (fieldsExtent? ⟨0, 1⟩ (f :: fs)).map fun e => ⟨alignTo e.size e.align, e.align⟩

/-- How far fields go behind what is laid out already. -/
def fieldsExtent? (e : Extent) : List ForeignType → Option Extent
  | [] => some e
  | f :: fs =>
    match extent? f with
    | none => none
    | some g => fieldsExtent? ⟨alignTo e.size g.align + g.size, max e.align g.align⟩ fs
end

/-- The type can be in a call. -/
def isCallable (t : ForeignType) : Bool := t.extent?.isSome

end ForeignType
end EngineBridge
