import EngineBridge.Layout.Frame
import EngineBridge.Model.Codec

/-! Layouts in JSON. A representation is one flat object: its category and what belongs to that, its size, its
alignment and the engine's name of the type. -/

namespace EngineBridge

namespace NativeRepr

/-- The category and what belongs to it. -/
def scalarFields : ScalarKind → List (String × Json)
  | .bool => [("category", .str "bool")]
  | .integer signed => [("category", .str "integer"), ("signed", .bool signed)]
  | .float => [("category", .str "float")]
  | .enum type signed => [("category", .str "enum"), ("name", .str type), ("signed", .bool signed)]
  | .objectHandle => [("category", .str "object_handle")]
  | .name => [("category", .str "name")]

/-- What every representation has. -/
def commonFields (size align : Nat) (nativeType : String) : List (String × Json) :=
  [("size", .nat size), ("align", .nat align), ("native_type", .str nativeType)]

mutual
def toJson : NativeRepr → Json
  | .scalar kind size align nativeType => .record (scalarFields kind ++ commonFields size align nativeType)
  | .aggregate type fields size align nativeType =>
    .record ([("category", .str "aggregate"), ("name", .str type), ("fields", .array (fieldsJson fields))]
      ++ commonFields size align nativeType)

/-- The fields of a struct. -/
def fieldsJson : List (Placed NativeRepr) → List Json
  | [] => []
  | ⟨name, offset, r⟩ :: fs =>
    .record [("name", .str name), ("offset", .nat offset), ("repr", toJson r)] :: fieldsJson fs
end

/-- A count that a word can hold. -/
def size? : Json → Option Nat
  | .number n => n.int?.bind fun i => if 0 ≤ i && i < UInt64.size then some i.toNat else none
  | _ => none

end NativeRepr

namespace FrameSlot

def toJson (s : FrameSlot) : Json :=
  .record [("name", .str s.name), ("offset", .nat s.offset), ("direction", s.direction.toJson),
    ("repr", s.repr.toJson)]

end FrameSlot

namespace FrameLayout

def toJson (l : FrameLayout) : Json :=
  .record <| [("receiver", .bool l.receiver), ("slots", .array (l.slots.map FrameSlot.toJson)),
    ("size", .nat l.size), ("align", .nat l.align)] ++ optionalField "ret" NativeRepr.toJson l.ret

end FrameLayout
end EngineBridge
