import EngineBridge.Json.Decode
import EngineBridge.Json.Parse
import EngineBridge.Json.Print
import EngineBridge.Model.Document

/-! Documents in JSON.

A record writes its fields in the order of its structure and leaves out what is empty. A type reference is an object
whose field `kind` says which reference it is; it is read whole before that field is looked up, so that nothing in it
may be unreadable, even what is not asked for. -/

namespace EngineBridge

/-- The deepest nesting of arrays and objects that a document may have. -/
def nestingLimit : Nat := 127

namespace FlagSet
variable {names : List String}

def toJson (a : FlagSet names) : Json := .str a.render

def ofJson? (j : Json) : Option (FlagSet names) := j.string?.bind parse?

end FlagSet

namespace TypeRef

/-- The integer types in the order of their tags. -/
def integerTypes : List IntegerType := [.int8, .int16, .int32, .int64, .uint8, .uint16, .uint32, .uint64]

/-- The tag that tells a reference from the others. -/
def tag : TypeRef → String
  | .bool => "bool"
  | .integer t => t.name
  | .float => "float"
  | .double => "double"
  | .name => "name"
  | .string => "string"
  | .text => "text"
  | .object _ => "object"
  | .classOf _ => "class"
  | .softObject _ => "soft_object"
  | .struct _ => "struct"
  | .enum _ => "enum"
  | .array _ => "array"
  | .set _ => "set"
  | .map _ _ => "map"
  | .delegate _ => "delegate"

/-- The tags in their order. -/
def tags : List String :=
  ["bool", "int8", "int16", "int32", "int64", "uint8", "uint16", "uint32", "uint64", "float", "double", "name",
   "string", "text", "object", "class", "soft_object", "struct", "enum", "array", "set", "map", "delegate"]

def toJson (t : TypeRef) : Json :=
  let kind := ("kind", Json.str t.tag)
  match t with
  | .object n | .softObject n => .record [kind, ("class", .str n)]
  | .classOf n => .record [kind, ("meta", .str n)]
  | .struct n | .enum n => .record [kind, ("name", .str n)]
  | .array e | .set e => .record [kind, ("element", e.toJson)]
  | .map k v => .record [kind, ("key", k.toJson), ("value", v.toJson)]
  | .delegate s => .record [kind, ("signature", .str s)]
  | _ => .record [kind]

/-- The reference without parts that a tag stands for. -/
def plain? (tag : String) : Option TypeRef :=
  ([TypeRef.bool, .float, .double, .name, .string, .text] ++ integerTypes.map TypeRef.integer).find? (·.tag == tag)

/-- The tag: a word, or within another reference also the tag's place in the order of the tags. -/
def tagOf? (inner : Bool) : Json → Option String
  | .string s => s
  | .number n => if inner && !n.negative then n.int?.bind fun i => tags[i.toNat]? else none
  | _ => none

/-- The tag and what else there is. -/
def untag? (inner : Bool) : Json → Option (String × Json)
  | .object fields => do
    let kind ← (← Json.single? "kind" fields)
    return (← tagOf? inner kind, .object (fields.filter fun f => f.1 != some "kind"))
  | .array (kind :: items) => do return (← tagOf? inner kind, .array items)
  | _ => none

/-- Nothing but the tag counts. -/
def noParts? : Json → Option Unit
  | .object _ | .array [] => some ()
  | _ => none

/-- The one text that a reference consists of. -/
def textPart? (name : String) (j : Json) : Option String := do
  match ← j.fields? [name] with
  | [field] => Json.required Json.string? field
  | _ => none

/-- Reads a reference that is nested no deeper than `fuel`. -/
def read? : Nat → Bool → Json → Option TypeRef
  | 0, _, _ => none
  | fuel + 1, inner, j => do
    let (tag, parts) ← untag? inner j
    let element? (parts : Json) : Option TypeRef := do
      match ← parts.fields? ["element"] with
      | [element] => Json.required (read? fuel true) element
      | _ => none
    match tag with
    | "object" => return .object (← textPart? "class" parts)
    | "class" => return .classOf (← textPart? "meta" parts)
    | "soft_object" => return .softObject (← textPart? "class" parts)
    | "struct" => return .struct (← textPart? "name" parts)
    | "enum" => return .enum (← textPart? "name" parts)
    | "array" => return .array (← element? parts)
    | "set" => return .set (← element? parts)
    | "map" =>
      match ← parts.fields? ["key", "value"] with
      | [key, value] =>
        return .map (← Json.required (read? fuel true) key) (← Json.required (read? fuel true) value)
      | _ => none
    | "delegate" => return .delegate (← textPart? "signature" parts)
    | tag => do
      noParts? parts
      plain? tag

/-- Reads a reference that may be nested as deep as the limit. -/
def ofJson? (limit : Nat) (j : Json) : Option TypeRef :=
  if j.isReadable limit then read? limit false j else none

end TypeRef

namespace Direction

def word : Direction → String
  | .inward => "in"
  | .outward => "out"
  | .inOut => "in_out"

def toJson (d : Direction) : Json := .str d.word

def ofJson? (j : Json) : Option Direction :=
  j.word?.bind fun w => [Direction.inward, .outward, .inOut].find? (·.word == w)

end Direction

namespace TypeKind

def toJson (k : TypeKind) : Json := .str k.keyword

def ofJson? (j : Json) : Option TypeKind :=
  j.word?.bind fun w => [TypeKind.classKind, .structKind, .enumKind].find? (·.keyword == w)

end TypeKind

namespace ParamRecord

def toJson (p : ParamRecord) : Json :=
  .record [("name", .str p.name), ("type", p.type.toJson), ("direction", p.direction.toJson)]

def ofJson? (limit : Nat) (j : Json) : Option ParamRecord := do
  match ← j.fields? ["name", "type", "direction"] with
  | [name, type, direction] =>
    return {
      name := ← Json.required Json.string? name
      type := ← Json.required (TypeRef.ofJson? (limit - 1)) type
      direction := ← Json.defaulted .inward Direction.ofJson? direction }
  | _ => none

end ParamRecord

/-- A field that is written only if there is a value. -/
def optionalField {α : Type} (name : String) (write : α → Json) : Option α → List (String × Json)
  | none => []
  | some a => [(name, write a)]

/-- A field that is written only if the list has items. -/
def listField {α : Type} (name : String) (write : α → Json) : List α → List (String × Json)
  | [] => []
  | as => [(name, .array (as.map write))]

namespace FunctionRecord

def toJson (f : FunctionRecord) : Json :=
  .record <| [("name", .str f.name), ("params", .array (f.params.map ParamRecord.toJson))]
    ++ optionalField "return_type" TypeRef.toJson f.returnType ++ [("flags", f.flags.toJson)]

def ofJson? (limit : Nat) (j : Json) : Option FunctionRecord := do
  match ← j.fields? ["name", "params", "return_type", "flags"] with
  | [name, params, returnType, flags] =>
    return {
      name := ← Json.required Json.string? name
      params := ← Json.defaulted [] (Json.list? (ParamRecord.ofJson? (limit - 2))) params
      returnType := ← Json.nullable (TypeRef.ofJson? (limit - 1)) returnType
      flags := ← Json.defaulted .empty FlagSet.ofJson? flags }
  | _ => none

end FunctionRecord

namespace PropertyRecord

def toJson (p : PropertyRecord) : Json :=
  .record [("name", .str p.name), ("type", p.type.toJson), ("flags", p.flags.toJson)]

def ofJson? (limit : Nat) (j : Json) : Option PropertyRecord := do
  match ← j.fields? ["name", "type", "flags"] with
  | [name, type, flags] =>
    return {
      name := ← Json.required Json.string? name
      type := ← Json.required (TypeRef.ofJson? (limit - 1)) type
      flags := ← Json.defaulted .empty FlagSet.ofJson? flags }
  | _ => none

end PropertyRecord

namespace EnumValue

def toJson (v : EnumValue) : Json := .record [("name", .str v.name), ("value", .int v.value.toInt)]

def ofJson? (j : Json) : Option EnumValue := do
  match ← j.fields? ["name", "value"] with
  | [name, value] =>
    return { name := ← Json.required Json.string? name, value := ← Json.required Json.int64? value }
  | _ => none

end EnumValue

namespace TypeRecord

def toJson (t : TypeRecord) : Json :=
  .record <| [("name", .str t.name), ("module", .str t.module), ("kind", t.kind.toJson)]
    ++ optionalField "native_name" .str t.nativeName? ++ optionalField "super_type" .str t.superType
    ++ [("flags", t.flags.toJson)] ++ listField "properties" PropertyRecord.toJson t.properties
    ++ listField "functions" FunctionRecord.toJson t.functions
    ++ listField "enum_values" EnumValue.toJson t.enumValues
    ++ optionalField "underlying_type" TypeRef.toJson t.underlyingType?

def ofJson? (limit : Nat) (j : Json) : Option TypeRecord := do
  match ← j.fields? ["name", "module", "kind", "native_name", "super_type", "flags", "properties", "functions",
    "enum_values", "underlying_type"] with
  | [name, module, kind, nativeName, superType, flags, properties, functions, enumValues, underlying] =>
    return {
      name := ← Json.required Json.string? name
      module := ← Json.required Json.string? module
      kind := ← Json.required TypeKind.ofJson? kind
      nativeName? := ← Json.nullable Json.string? nativeName
      superType := ← Json.nullable Json.string? superType
      flags := ← Json.defaulted .empty FlagSet.ofJson? flags
      properties := ← Json.defaulted [] (Json.list? (PropertyRecord.ofJson? (limit - 2))) properties
      functions := ← Json.defaulted [] (Json.list? (FunctionRecord.ofJson? (limit - 2))) functions
      enumValues := ← Json.defaulted [] (Json.list? EnumValue.ofJson?) enumValues
      underlyingType? := ← Json.nullable (TypeRef.ofJson? (limit - 1)) underlying }
  | _ => none

end TypeRecord

namespace Document

def toJson (d : Document) : Json :=
  .record [("engine_version", .str d.engineVersion), ("attributes", d.attributes.toJson),
    ("types", .array (d.types.map TypeRecord.toJson))]

/-- Reads a document; whether it is consistent is another question. -/
def ofJson? (j : Json) : Option Document := do
  match ← j.fields? ["engine_version", "attributes", "types"] with
  | [version, attributes, types] =>
    return {
      engineVersion := ← Json.required Json.string? version
      attributes := ← Json.defaulted .empty FlagSet.ofJson? attributes
      types := ← Json.required (Json.list? (TypeRecord.ofJson? (nestingLimit - 2))) types }
  | _ => none

/-- The text of a saved document. -/
def toText (d : Document) : String := d.toJson.toPretty

/-- The document that a text holds. -/
def ofText? (text : String) : Option Document := (Json.parse? text).bind ofJson?

end Document
end EngineBridge
