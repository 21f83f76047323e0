import EngineBridge.Model.TypeRef
import EngineBridge.Number.Shortest
import EngineBridge.Text.Digits

/-! Values that cross between the engine and managed code. Floating point numbers are kept as bits, so that nothing is
lost on the way; a handle is the address of an engine object, which is never followed. -/

namespace EngineBridge

/-- A number of an integer type. -/
structure TypedInteger where
  type : IntegerType
  value : Int
  /-- The number is a value of its type. -/
  fits : type.holds value = true
deriving DecidableEq, Repr

namespace TypedInteger

/-- The number that the lowest bits of `n` stand for in a type. -/
def wrapped (type : IntegerType) (n : Nat) : Int :=
  let m : Nat := n % type.count
  if type.signed = true ∧ type.count ≤ 2 * m then (m : Int) - type.count else m

theorem holds_wrapped (type : IntegerType) (n : Nat) : type.holds (wrapped type n) = true := by
  have h : n % type.count < type.count := Nat.mod_lt _ (by cases type <;> decide)
  rw [wrapped]
  cases type <;>
    simp [IntegerType.holds, IntegerType.least, IntegerType.greatest, IntegerType.signed, IntegerType.count] at h ⊢
  all_goals try split
  all_goals omega

/-- The number of a type with the given bits. -/
def ofBits (type : IntegerType) (n : Nat) : TypedInteger := ⟨type, wrapped type n, holds_wrapped type n⟩

/-- The bits of the number. -/
def bits (i : TypedInteger) : Nat := (i.value % i.type.count).toNat

end TypedInteger

/-- A value that crosses between the engine and managed code. -/
inductive Value
  | void
  | bool (b : Bool)
  | integer (i : TypedInteger)
  | float (bits : UInt32)
  | double (bits : UInt64)
  | name (index number : UInt32)
  | handle (address : UInt64)
  | enum (n : Int64)
  | string (s : String)
  | text (s : String)
  | struct (fields : List Value)
  | array (items : List Value)
  | map (entries : List (Value × Value))
deriving BEq, Repr, Inhabited

namespace Value

/-- What a message calls a value of this kind. -/
def typeName : Value → String
  | void => "void"
  | bool _ => "bool"
  | integer i => i.type.name
  | float _ => "float"
  | double _ => "double"
  | name _ _ => "name"
  | handle _ => "handle"
  | enum _ => "enum"
  | string _ => "string"
  | text _ => "text"
  | struct _ => "struct"
  | array _ => "array"
  | map _ => "map"

/-- The number that the value is or stands for. -/
def integer? : Value → Option Int
  | bool b => some (if b then 1 else 0)
  | integer i => some i.value
  | enum n => some n.toInt
  | handle address => some address.toNat
  | _ => none

/-- The floating point number, with 64 bits. -/
def double? : Value → Option UInt64
  | float bits => some (widened bits)
  | double bits => some bits
  | _ => none

/-- The text. -/
def string? : Value → Option String
  | string s | text s => some s
  | _ => none

/-- A kind of container and how much is in it. -/
def sized (kind : String) (size : Nat) : String := kind ++ "[" ++ toString size ++ "]"

/-- The spelling in messages. -/
def display : Value → String
  | void => "void"
  | bool b => if b then "true" else "false"
  | integer i => toString i.value
  | float bits => BinaryFormat.single.text bits.toNat
  | double bits => BinaryFormat.double.text bits.toNat
  | name index number => "name(" ++ toString index.toNat ++ ", " ++ toString number.toNat ++ ")"
  | handle address => "0x" ++ hexDigits address.toNat
  | enum n => "enum(" ++ toString n.toInt ++ ")"
  | string s | text s => "\"" ++ s ++ "\""
  | struct fields => sized "struct" fields.length
  | array items => sized "array" items.length
  | map entries => sized "map" entries.length

end Value
end EngineBridge
