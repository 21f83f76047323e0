import EngineBridge.Layout.Codec

/-! The index of generated trampolines: which functions have one, under which symbol, and how their arguments lie. The
host reads it when it starts. -/

namespace EngineBridge

/-- A function that has a trampoline. -/
structure TrampolineEntry where
  id : FunctionId
  symbol : String
  layout : FrameLayout
deriving BEq, Repr

/-- All functions that have a trampoline. -/
structure TrampolineManifest where
  engineVersion : String
  entries : List TrampolineEntry
deriving BEq, Repr

namespace FunctionId

def toJson (id : FunctionId) : Json :=
  .record [("type_name", .str id.type), ("function_name", .str id.function)]

def ofJson? (j : Json) : Option FunctionId := do
  match ← j.fields? ["type_name", "function_name"] with
  | [type, function] =>
    return { type := ← Json.required Json.string? type, function := ← Json.required Json.string? function }
  | _ => none

end FunctionId

namespace NativeRepr

/-- Reads one part of a category. -/
def part? {α : Type} (name : String) (read : Json → Option α) (fields : List (JsonText × Json)) : Option α := do
  let value ← Json.single? name fields
  Json.required read value

/-- The categories in their order. -/
def categories : List String := ["bool", "integer", "float", "enum", "object_handle", "name", "aggregate"]

/-- The category: a word, or its place in the order of the categories. -/
def category? : Json → Option String
  | .string s => s
  | .number n => if n.negative then none else n.int?.bind fun i => categories[i.toNat]?
  | _ => none

/-- The kind of a value that is no struct: its category, with what belongs to that. -/
def scalarOf? (category : String) (fields : List (JsonText × Json)) : Option ScalarKind :=
  match category with
  | "bool" => some .bool
  | "integer" => (part? "signed" Json.bool? fields).map .integer
  | "float" => some .float
  | "enum" => do return .enum (← part? "name" Json.string? fields) (← part? "signed" Json.bool? fields)
  | "object_handle" => some .objectHandle
  | "name" => some .name
  | _ => none

/-- The names of the fields that every representation has. -/
def commonNames : List String := ["size", "align", "native_type"]

/-- A name, an offset and what lies there, by name or by position. -/
def placed? (read : Json → Option NativeRepr) (j : Json) : Option (Placed NativeRepr) := do
  match ← j.fields? ["name", "offset", "repr"] with
  | [name, offset, repr] =>
    return ⟨← Json.required Json.string? name, ← Json.required size? offset, ← Json.required read repr⟩
  | _ => none

/-- Reads a representation that is nested no deeper than `fuel`. What belongs to the category stands beside what all
representations have, so that only an object will do. -/
def read? : Nat → Json → Option NativeRepr
  | 0, _ => none
  | fuel + 1, .object fields => do
    let size ← part? "size" size? fields
    let align ← part? "align" size? fields
    let nativeType ← part? "native_type" Json.string? fields
    let rest := fields.filter fun f => !commonNames.any fun n => f.1 == some n
    let category ← part? "category" category? rest
    if category = "aggregate" then
      let name ← part? "name" Json.string? rest
      let parts ← part? "fields" (Json.list? (placed? (read? fuel))) rest
      return .aggregate name parts size align nativeType
    else
      let kind ← scalarOf? category rest
      return .scalar kind size align nativeType
  | _, _ => none

/-- Reads a representation that may be nested as deep as the limit. -/
def ofJson? (limit : Nat) (j : Json) : Option NativeRepr :=
  if j.isReadable limit then read? (limit + 1) j else none

end NativeRepr

namespace FrameSlot

def ofJson? (limit : Nat) (j : Json) : Option FrameSlot := do
  match ← j.fields? ["name", "offset", "direction", "repr"] with
  | [name, offset, direction, repr] =>
    return {
      name := ← Json.required Json.string? name
      offset := ← Json.required NativeRepr.size? offset
      direction := ← Json.required Direction.ofJson? direction
      repr := ← Json.required (NativeRepr.ofJson? (limit - 1)) repr }
  | _ => none

end FrameSlot

namespace FrameLayout

def ofJson? (limit : Nat) (j : Json) : Option FrameLayout := do
  match ← j.fields? ["receiver", "slots", "size", "align", "ret"] with
  | [receiver, slots, size, align, ret] =>
    return {
      receiver := ← Json.defaulted false Json.bool? receiver
      slots := ← Json.required (Json.list? (FrameSlot.ofJson? (limit - 2))) slots
      size := ← Json.required NativeRepr.size? size
      align := ← Json.required NativeRepr.size? align
      ret := ← Json.nullable (NativeRepr.ofJson? (limit - 1)) ret }
  | _ => none

end FrameLayout

namespace TrampolineEntry

def toJson (e : TrampolineEntry) : Json :=
  .record [("id", e.id.toJson), ("symbol", .str e.symbol), ("layout", e.layout.toJson)]

def ofJson? (limit : Nat) (j : Json) : Option TrampolineEntry := do
  match ← j.fields? ["id", "symbol", "layout"] with
  | [id, symbol, layout] =>
    return {
      id := ← Json.required FunctionId.ofJson? id
      symbol := ← Json.required Json.string? symbol
      layout := ← Json.required (FrameLayout.ofJson? (limit - 1)) layout }
  | _ => none

end TrampolineEntry

namespace TrampolineManifest

/-- The entry of a function. -/
def find? (m : TrampolineManifest) (id : FunctionId) : Option TrampolineEntry := m.entries.find? (·.id == id)

def toJson (m : TrampolineManifest) : Json :=
  .record [("engine_version", .str m.engineVersion), ("entries", .array (m.entries.map TrampolineEntry.toJson))]

def ofJson? (j : Json) : Option TrampolineManifest := do
  match ← j.fields? ["engine_version", "entries"] with
  | [version, entries] =>
    return {
      engineVersion := ← Json.required Json.string? version
      entries := ← Json.required (Json.list? (TrampolineEntry.ofJson? (nestingLimit - 2))) entries }
  | _ => none

/-- The text of a saved index. -/
def toText (m : TrampolineManifest) : String := m.toJson.toPretty

/-- The index that a text holds. -/
def ofText? (text : String) : Option TrampolineManifest := (Json.parse? text).bind ofJson?

end TrampolineManifest
end EngineBridge
