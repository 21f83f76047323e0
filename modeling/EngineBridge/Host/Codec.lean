import EngineBridge.Declaration.Codec
import EngineBridge.Host.Managed
import EngineBridge.Model.Codec
import EngineBridge.Number.Hexadecimal

/-! What goes to and from hosts in JSON. A value is an object of a tag and what the value holds. Integers and addresses
are texts of decimal digits, since not every reader of JSON keeps 64 bits; floating point numbers are their bits, the
highest digit first, and all that are no numbers are one word. -/

namespace EngineBridge

namespace IntegerType

/-- The tag of a number: its sign and its bits. -/
def shortName (t : IntegerType) : String := (if t.signed then "i" else "u") ++ toString (8 * t.bytes)

end IntegerType

namespace BinaryFormat

/-- How many bytes a number takes. -/
def bytes (f : BinaryFormat) : Nat := (1 + f.exponentBits + f.fractionBits) / 8

/-- The word for what is no number. -/
def notNumberWord : String := "nan"

def toJson (f : BinaryFormat) (bits : Nat) : Json :=
  .str (if f.infinity < bits % f.signBit then notNumberWord else hexOfBytes (bytesOf f.bytes bits).reverse)

def ofJson? (f : BinaryFormat) (j : Json) : Option Nat :=
  j.string?.map fun s =>
    if s = notNumberWord then f.infinity + f.quietBit else numberOf (bytesOfHex s).reverse

end BinaryFormat

namespace Value

/-- A tag and what belongs to it. -/
def tagged (tag : String) (v : Json) : Json := .record [("t", .str tag), ("v", v)]

/-- An integer as a text. -/
def decimalJson (n : Int) : Json := .str (toString n)

mutual
def toJson : Value → Json
  | .void => .record [("t", .str "void")]
  | .bool b => tagged "bool" (.bool b)
  | .integer i => tagged i.type.shortName (decimalJson i.value)
  | .float bits => tagged "f32" (BinaryFormat.single.toJson bits.toNat)
  | .double bits => tagged "f64" (BinaryFormat.double.toJson bits.toNat)
  | .name index number => tagged "name" (.array [.nat index.toNat, .nat number.toNat])
  | .handle address => tagged "handle" (decimalJson address.toNat)
  | .enum n => tagged "enum" (decimalJson n.toInt)
  | .string s => tagged "string" (.str s)
  | .text s => tagged "text" (.str s)
  | .struct fields => tagged "struct" (.array (itemsJson fields))
  | .array items => tagged "array" (.array (itemsJson items))
  | .map entries => tagged "map" (.array (entriesJson entries))

/-- Values one after the other. -/
def itemsJson : List Value → List Json
  | [] => []
  | v :: vs => toJson v :: itemsJson vs

/-- Pairs one after the other. -/
def entriesJson : List (Value × Value) → List Json
  | [] => []
  | (k, v) :: es => .array [toJson k, toJson v] :: entriesJson es
end

/-- An integer from a text. -/
def decimalOf? (j : Json) : Option Int := j.string?.bind decimal?

/-- A number of 32 bits. -/
def word32? (j : Json) : Option UInt32 := j.int64?.map fun n => UInt32.ofInt n.toInt

/-- What belongs to the tag of a value that holds no others. -/
def scalarOf? (tag : String) (v : Json) : Option Value :=
  match tag with
  | "bool" => v.bool?.map .bool
  | "f32" => (BinaryFormat.single.ofJson? v).map fun bits => .float (.ofNat bits)
  | "f64" => (BinaryFormat.double.ofJson? v).map fun bits => .double (.ofNat bits)
  | "name" =>
    match v with
    | .array [index, number] => do return .name (← word32? index) (← word32? number)
    | _ => none
  | "handle" => (decimalOf? v).map fun n => .handle (UInt64.ofInt n)
  | "enum" => (decimalOf? v).map fun n => .enum (Int64.ofInt n)
  | "string" => v.string?.map .string
  | "text" => v.string?.map .text
  | tag => do
    let type ← TypeRef.integerTypes.find? (·.shortName == tag)
    let n ← decimalOf? v
    return .integer (.ofBits type (n % type.count).toNat)

/-- A value that is nested down to a limit. -/
def ofJsonWithin? : Nat → Json → Option Value
  | 0, _ => none
  | limit + 1, j => do
    let item := ofJsonWithin? limit
    let tag ← (← j.field? "t").string?
    let v := (j.field? "v").getD .null
    match tag with
    | "void" => return .void
    | "struct" => return .struct (← Json.list? item v)
    | "array" => return .array (← Json.list? item v)
    | "map" => return .map (← Json.list? (fun e =>
        match e with
        | .array [k, x] => do return (← item k, ← item x)
        | _ => none) v)
    | tag => scalarOf? tag v

/-- How deep values may be nested in JSON. -/
def jsonLevels : Nat := 256

def ofJson? (j : Json) : Option Value := ofJsonWithin? jsonLevels j

end Value

namespace ManagedMethod

def toJson (m : ManagedMethod) : Json := .record [
  ("name", .str m.name), ("directions", .list Direction.toJson m.directions), ("returns", .bool m.returns)]

def ofJson? (j : Json) : Option ManagedMethod := do
  match ← j.fields? ["name", "directions", "returns"] with
  | [name, directions, returns] =>
    return ⟨← Json.required Json.string? name, ← Json.required (Json.list? Direction.ofJson?) directions,
      ← Json.required Json.bool? returns⟩
  | _ => none

end ManagedMethod

namespace DispatchStatus

def toJson : DispatchStatus → Json
  | completed n => .record [("completed", .nat n)]
  | bufferTooSmall n => .record [("too_small", .nat n)]
  | exception text => .record [("exception", .str text)]
  | methodNotFound => .str "method_not_found"

end DispatchStatus

namespace EntryPoint

/-- The assembly, the type and the method, one after the other. -/
def ofJson? : Json → Option EntryPoint
  | .array [assembly, type, method] => do return ⟨← assembly.string?, ← type.string?, ← method.string?⟩
  | _ => none

end EntryPoint

namespace HostConfig

/-- A configuration: what is usual, but for the fields that are there. -/
def ofJson (j : Json) : HostConfig :=
  let text? (name : String) : Option String := (j.field? name).bind Json.string?
  let path? (name : String) : Option Path := (text? name).map Path.mk
  let usual := usual ((path? "base_dir").getD ⟨"."⟩)
  { usual with
    nativeLibraries := (path? "native_lib_dir").getD usual.nativeLibraries
    managedLibraries := (path? "managed_lib_dir").getD usual.managedLibraries
    runtimeLibrary := (text? "runtime_library").getD usual.runtimeLibrary
    bridgeAssembly := (path? "bridge_assembly").getD usual.bridgeAssembly
    assemblies := (((j.field? "assemblies").bind (Json.list? Json.string?)).getD []).map Path.mk
    manifest := path? "manifest"
    nativeModule := path? "native_module"
    entryPoint := ((j.field? "entry_point").bind EntryPoint.ofJson?).getD usual.entryPoint
    appDomain := (text? "app_domain").getD usual.appDomain }

end HostConfig

namespace RuntimeError

def toJson (e : RuntimeError) : Json := .failure e.kind e.message []

end RuntimeError

namespace HostError

def toJson (e : HostError) : Json := .failure e.kind e.message [("status", .int e.status)]

end HostError
end EngineBridge
