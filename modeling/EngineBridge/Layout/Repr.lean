import EngineBridge.Model.Document

/-! How values of engine types lie in memory.

Numbers, enums, handles and names have fixed sizes; a struct is laid out as the engine's compiler does it, each field
at the next multiple of its alignment. Texts, soft references, collections and delegates have no representation, nor
has a struct that contains one. -/

namespace EngineBridge

/-- The least multiple of `align` that is not below `offset`. -/
def alignTo (offset align : Nat) : Nat := (offset + align - 1) / align * align

/-- The least multiple of `align` that is not below `offset`, if there is one that a word can hold. -/
def alignTo? (offset align : Nat) : Option Nat :=
  if align = 0 then none
  else if alignTo offset align < UInt64.size then some (alignTo offset align) else none

/-- A part at an offset within something larger. -/
structure Placed (α : Type) where
  name : String
  offset : Nat
  repr : α
deriving BEq, Repr

/-- What a value that is no struct consists of. -/
inductive ScalarKind
  | bool
  | integer (signed : Bool)
  | float
  | enum (type : String) (signed : Bool)
  | objectHandle
  | name
deriving DecidableEq, Repr

/-- How a value lies in memory: its parts, its size and alignment in bytes, and the engine's name of its type. -/
inductive NativeRepr
  | scalar (kind : ScalarKind) (size align : Nat) (nativeType : String)
  | aggregate (type : String) (fields : List (Placed NativeRepr)) (size align : Nat) (nativeType : String)
deriving BEq, Repr

namespace NativeRepr

def size : NativeRepr → Nat
  | scalar _ size _ _ | aggregate _ _ size _ _ => size

def align : NativeRepr → Nat
  | scalar _ _ align _ | aggregate _ _ _ align _ => align

def nativeType : NativeRepr → String
  | scalar _ _ _ t | aggregate _ _ _ _ t => t

/-- The representation is that of a signed integer. -/
def isSignedInteger : NativeRepr → Bool
  | scalar (.integer signed) _ _ _ => signed
  | _ => false

/-- The size of a pointer. -/
def pointerSize : Nat := 8

/-- A number of that many bytes, at a multiple of its size. -/
def number (kind : ScalarKind) (size : Nat) (nativeType : String) : NativeRepr :=
  scalar kind size size nativeType

/-- A pointer to an object of an engine type. -/
def handle (nativeName : String) : NativeRepr := number .objectHandle pointerSize (nativeName ++ "*")

end NativeRepr

/-- Why a type or function has no layout. -/
inductive LayoutError
  | unsupported (type : TypeRef) (reason : String)
  | recursiveAggregate (type : String)
  | unknownType (type : String)
deriving DecidableEq, Repr

namespace LayoutError

/-- The name of the kind of error. -/
def kind : LayoutError → String
  | unsupported _ _ => "Unsupported"
  | recursiveAggregate _ => "RecursiveAggregate"
  | unknownType _ => "UnknownType"

def message : LayoutError → String
  | unsupported type reason =>
    "type " ++ type.display ++ " is not representable in the native calling convention (" ++ reason ++ ")"
  | recursiveAggregate type => "struct '" ++ type ++ "' contains itself"
  | unknownType type => "unknown type '" ++ type ++ "'"

end LayoutError

/-- Parts that were placed one after the other: where the next could begin, and the largest alignment. -/
structure Packing (α : Type) where
  placed : List α
  offset : Nat
  align : Nat

namespace Packing

/-- Nothing yet. -/
def empty {α : Type} : Packing α := ⟨[], 0, 1⟩

/-- Places a part behind the others, at the next multiple of its alignment. -/
def add {α : Type} (p : Packing α) (r : NativeRepr) (make : Nat → α) : Packing α :=
  let offset := alignTo p.offset r.align
  ⟨p.placed ++ [make offset], offset + r.size, max p.align r.align⟩

end Packing

namespace Document

/-- The type of that name, as a layout asks for it. -/
def layoutType (d : Document) (name : String) : Except LayoutError TypeRecord :=
  match d.type? name with
  | some t => .ok t
  | none => .error (.unknownType name)

/-- The representation of a type within the structs of the given names, looked up no deeper than `fuel`. -/
def reprWithin (d : Document) : Nat → List String → TypeRef → Except LayoutError NativeRepr
  | 0, _, t => .error (.recursiveAggregate t.display)
  | fuel + 1, inside, t =>
    match t with
    | .bool => .ok (.number .bool 1 "bool")
    | .integer i => .ok (.number (.integer i.signed) i.bytes i.name)
    | .float => .ok (.number .float 4 "float")
    | .double => .ok (.number .float 8 "double")
    | .name => .ok (.scalar .name 8 4 "FName")
    | .object type => do
      let record ← d.layoutType type
      return .handle record.nativeName
    | .classOf _ => .ok (.handle "UClass")
    | .enum type => do
      let record ← d.layoutType type
      let underlying ← reprWithin d fuel inside record.underlying
      return .scalar (.enum type underlying.isSignedInteger) underlying.size underlying.align record.nativeName
    | .struct type => do
      if inside.contains type then throw (.recursiveAggregate type)
      let record ← d.layoutType type
      if record.kind ≠ .structKind then throw (.unknownType type)
      let packing ← record.properties.foldlM (fun (p : Packing (Placed NativeRepr)) property => do
        let r ← reprWithin d fuel (type :: inside) property.type
        return p.add r fun offset => ⟨property.name, offset, r⟩) .empty
      return .aggregate type packing.placed (alignTo (max packing.offset 1) packing.align) packing.align
        record.nativeName
    | .string | .text => .error (.unsupported t "variable-length text")
    | .softObject _ => .error (.unsupported t "soft references need path resolution")
    | .array _ | .set _ | .map _ _ => .error (.unsupported t "managed-only collection")
    | .delegate _ => .error (.unsupported t "delegates carry a managed target")

/-- How values of a type lie in memory. A struct within structs leads to another struct, and an enum to the type
    behind it, so that no chain without a repetition is longer than the fuel. -/
def nativeRepr (d : Document) (t : TypeRef) : Except LayoutError NativeRepr :=
  reprWithin d ((d.types.length + 1) * (d.types.length + 2)) [] t

end Document
end EngineBridge
