import EngineBridge.Host.Value
import EngineBridge.Number.Bytes
import EngineBridge.Text.Utf8

/-! The encoding of calls from the engine into managed code. Every value begins with a tag that says what it is; numbers
have their lowest byte first, and texts and containers their length in front.

A reader knows how deep it is within containers and gives up below the last level. It keeps its place when it fails. -/

namespace EngineBridge

namespace IntegerType

/-- The tag of a number. -/
def tag : IntegerType → UInt8
  | int8 => 2
  | int16 => 3
  | int32 => 4
  | int64 => 5
  | uint8 => 6
  | uint16 => 7
  | uint32 => 8
  | uint64 => 9

end IntegerType

namespace Wire

/-! ### Writing -/

/-- A length, in four bytes. -/
def lengthBytes (n : Nat) : List UInt8 := bytesOf 4 n

/-- A text. -/
def textBytes (s : String) : List UInt8 := lengthBytes (Utf8.encode s).length ++ Utf8.encode s

mutual
/-- A value. -/
def valueBytes : Value → List UInt8
  | .void => [0]
  | .bool b => [1, if b then 1 else 0]
  | .integer i => i.type.tag :: bytesOf i.type.bytes i.bits
  | .float bits => 10 :: bytesOf 4 bits.toNat
  | .double bits => 11 :: bytesOf 8 bits.toNat
  | .name index number => 12 :: (bytesOf 4 index.toNat ++ bytesOf 4 number.toNat)
  | .handle address => 13 :: bytesOf 8 address.toNat
  | .enum n => 14 :: bytesOf 8 n.toUInt64.toNat
  | .string s => 15 :: textBytes s
  | .text s => 16 :: textBytes s
  | .struct fields => 17 :: (lengthBytes fields.length ++ itemBytes fields)
  | .array items => 18 :: (lengthBytes items.length ++ itemBytes items)
  | .map entries => 19 :: (lengthBytes entries.length ++ entryBytes entries)

/-- Values one after the other. -/
def itemBytes : List Value → List UInt8
  | [] => []
  | v :: vs => valueBytes v ++ itemBytes vs

/-- Keys and values one after the other. -/
def entryBytes : List (Value × Value) → List UInt8
  | [] => []
  | (k, v) :: es => valueBytes k ++ (valueBytes v ++ entryBytes es)
end

/-- A list of values. -/
def valuesBytes (vs : List Value) : List UInt8 := lengthBytes vs.length ++ itemBytes vs

/-- The call of a method with arguments. -/
def requestBytes (method : String) (args : List Value) : List UInt8 := textBytes method ++ valuesBytes args

/-! ### Reading -/

/-- Why bytes are no encoding. -/
inductive Fault
  /-- The bytes end before what stands at this place does. -/
  | truncated (position : Nat)
  /-- More items or bytes are announced than there are bytes left. -/
  | lengthExceeds (length : Nat)
  | trailing (count : Nat)
  | badText (fault : Utf8.Fault)
  | tooDeep
  | unknownTag (tag : UInt8)
deriving DecidableEq, Repr

namespace Fault

def message : Fault → String
  | truncated position => "payload truncated at byte " ++ toString position
  | lengthExceeds length => "length " ++ toString length ++ " exceeds payload"
  | trailing count => toString count ++ " trailing bytes after payload"
  | badText fault => fault.message
  | tooDeep => "value nesting too deep"
  | unknownTag tag => "unknown value tag " ++ toString tag.toNat

end Fault

/-- A place within bytes, and the bytes from there on. -/
structure Cursor where
  position : Nat
  rest : List UInt8
deriving DecidableEq, Repr

/-- The front of some bytes. -/
def Cursor.start (bytes : List UInt8) : Cursor := ⟨0, bytes⟩

/-- Reads from a place on. The place that was reached stays, also after a failure. -/
abbrev Reader (α : Type) := ExceptT Fault (StateM Cursor) α

/-- So many bytes. -/
def take (n : Nat) : Reader (List UInt8) := do
  let c ← get
  if n ≤ c.rest.length then
    set (Cursor.mk (c.position + n) (c.rest.drop n))
    return c.rest.take n
  else throw (.truncated c.position)

/-- A number of so many bytes. -/
def number (width : Nat) : Reader Nat := do return numberOf (← take width)

/-- A length. Everything takes at least a byte, so that no length exceeds what is left. -/
def length : Reader Nat := do
  let n ← number 4
  if (← get).rest.length < n then throw (.lengthExceeds n)
  return n

/-- A text. -/
def text : Reader String := do
  let bytes ← take (← length)
  match Utf8.decode bytes with
  | .ok s => return s
  | .error fault => throw (.badText fault)

/-- So many items. -/
def items {α : Type} (item : Reader α) : Nat → Reader (List α)
  | 0 => return []
  | n + 1 => do
    let a ← item
    let as ← items item n
    return a :: as

/-- A list of items with their number in front. -/
def list {α : Type} (item : Reader α) : Reader (List α) := do items item (← length)

/-- A pair of items. -/
def pair {α : Type} (item : Reader α) : Reader (α × α) := do
  let k ← item
  let v ← item
  return (k, v)

/-- A number of an integer type. -/
def integer (type : IntegerType) : Reader Value := do return .integer (.ofBits type (← number type.bytes))

/-- How deep values may be nested: containers at the last level have no items. -/
def levels : Nat := 33

/-- A value that goes no deeper than the given levels. -/
def valueWithin : Nat → Reader Value
  | 0 => throw .tooDeep
  | levels + 1 => do
    match (← number 1) with
    | 0 => return .void
    | 1 => return .bool ((← number 1) != 0)
    | 2 => integer .int8
    | 3 => integer .int16
    | 4 => integer .int32
    | 5 => integer .int64
    | 6 => integer .uint8
    | 7 => integer .uint16
    | 8 => integer .uint32
    | 9 => integer .uint64
    | 10 => return .float (.ofNat (← number 4))
    | 11 => return .double (.ofNat (← number 8))
    | 12 =>
      let index ← number 4
      let number ← number 4
      return .name (.ofNat index) (.ofNat number)
    | 13 => return .handle (.ofNat (← number 8))
    | 14 => return .enum (UInt64.ofNat (← number 8)).toInt64
    | 15 => return .string (← text)
    | 16 => return .text (← text)
    | 17 => return .struct (← list (valueWithin levels))
    | 18 => return .array (← list (valueWithin levels))
    | 19 => return .map (← list (pair (valueWithin levels)))
    | tag => throw (.unknownTag (.ofNat tag))

/-- A value. -/
def value : Reader Value := valueWithin levels

/-- A list of values. -/
def values : Reader (List Value) := list value

/-- Nothing is left. -/
def finish : Reader Unit := do
  let c ← get
  if c.rest.isEmpty then return () else throw (.trailing c.rest.length)

/-- The call of a method with arguments, and nothing behind it. -/
def request : Reader (String × List Value) := do
  let method ← text
  let args ← values
  finish
  return (method, args)

/-- Values and nothing behind them. -/
def response : Reader (List Value) := do
  let vs ← values
  finish
  return vs

/-- Reads bytes from their front. -/
def decode {α : Type} (r : Reader α) (bytes : List UInt8) : Except Fault α := (r.run.run (.start bytes)).1

end Wire
end EngineBridge
