/-! References to engine types, as properties, parameters and return values hold them. -/

namespace EngineBridge

/-- The integer types of the engine. -/
inductive IntegerType
  | int8 | int16 | int32 | int64
  | uint8 | uint16 | uint32 | uint64
deriving DecidableEq, Repr

namespace IntegerType

/-- Negative numbers are values of the type. -/
def signed : IntegerType → Bool
  | int8 | int16 | int32 | int64 => true
  | uint8 | uint16 | uint32 | uint64 => false

/-- The bytes that a value takes. -/
def bytes : IntegerType → Nat
  | int8 | uint8 => 1
  | int16 | uint16 => 2
  | int32 | uint32 => 4
  | int64 | uint64 => 8

/-- How many values the type has. -/
def count : IntegerType → Nat
  | int8 | uint8 => 256
  | int16 | uint16 => 65536
  | int32 | uint32 => 4294967296
  | int64 | uint64 => 18446744073709551616

/-- The least value. -/
def least (t : IntegerType) : Int := if t.signed then -(t.count / 2 : Nat) else 0

/-- The greatest value. -/
def greatest (t : IntegerType) : Int := if t.signed then (t.count / 2 : Nat) - 1 else t.count - 1

/-- The number is a value of the type. -/
def holds (t : IntegerType) (n : Int) : Bool := t.least ≤ n && n ≤ t.greatest

/-- The engine's name of the type. -/
def name : IntegerType → String
  | int8 => "int8"
  | int16 => "int16"
  | int32 => "int32"
  | int64 => "int64"
  | uint8 => "uint8"
  | uint16 => "uint16"
  | uint32 => "uint32"
  | uint64 => "uint64"

/-- The name of the type in managed code. -/
def managedName : IntegerType → String
  | int8 => "sbyte"
  | int16 => "short"
  | int32 => "int"
  | int64 => "long"
  | uint8 => "byte"
  | uint16 => "ushort"
  | uint32 => "uint"
  | uint64 => "ulong"

end IntegerType

/-- A reference to an engine type. Objects, classes, structs and enums are named and stand for a type of the same
    document. -/
inductive TypeRef
  | bool
  | integer (type : IntegerType)
  | float
  | double
  | name
  | string
  | text
  | object (type : String)
  | classOf (type : String)
  | softObject (type : String)
  | struct (type : String)
  | enum (type : String)
  | array (element : TypeRef)
  | set (element : TypeRef)
  | map (key value : TypeRef)
  | delegate (signature : String)
deriving DecidableEq, Repr

/-- What a named reference expects its type to be. -/
inductive ReferenceKind
  | toClass
  | toStruct
  | toEnum
deriving DecidableEq, Repr

/-- The word for what is referred to. -/
def ReferenceKind.name : ReferenceKind → String
  | toClass => "Class"
  | toStruct => "Struct"
  | toEnum => "Enum"

namespace TypeRef

/-- The integer type, if it is one. -/
def integer? : TypeRef → Option IntegerType
  | .integer t => some t
  | _ => none

/-- Every type the reference names, at any depth, from left to right. -/
def references : TypeRef → List (ReferenceKind × String)
  | .object t | .classOf t | .softObject t => [(.toClass, t)]
  | .struct t => [(.toStruct, t)]
  | .enum t => [(.toEnum, t)]
  | .array e | .set e => e.references
  | .map k v => k.references ++ v.references
  | _ => []

/-- The spelling in messages. -/
def display : TypeRef → String
  | .bool => "bool"
  | .integer t => t.name
  | .float => "float"
  | .double => "double"
  | .name => "name"
  | .string => "string"
  | .text => "text"
  | .object t => "object<" ++ t ++ ">"
  | .classOf t => "class<" ++ t ++ ">"
  | .softObject t => "soft<" ++ t ++ ">"
  | .struct t => "struct<" ++ t ++ ">"
  | .enum t => "enum<" ++ t ++ ">"
  | .array e => "array<" ++ e.display ++ ">"
  | .set e => "set<" ++ e.display ++ ">"
  | .map k v => "map<" ++ k.display ++ ", " ++ v.display ++ ">"
  | .delegate s => "delegate<" ++ s ++ ">"

/-- The spelling in generated managed code. -/
def managedName : TypeRef → String
  | .bool => "bool"
  | .integer t => t.managedName
  | .float => "float"
  | .double => "double"
  | .name => "FName"
  | .string => "string"
  | .text => "FText"
  | .object t => t ++ "?"
  | .classOf t => "TSubclassOf<" ++ t ++ ">"
  | .softObject t => "TSoftObjectPtr<" ++ t ++ ">"
  | .struct t | .enum t => t
  | .array e => "IList<" ++ e.managedName ++ ">"
  | .set e => "ISet<" ++ e.managedName ++ ">"
  | .map k v => "IDictionary<" ++ k.managedName ++ ", " ++ v.managedName ++ ">"
  | .delegate s => s

end TypeRef
end EngineBridge
