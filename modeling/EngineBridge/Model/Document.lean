import EngineBridge.Model.FlagSet
import EngineBridge.Model.TypeRef
import EngineBridge.Declaration.Basic

/-! Type documents: the engine's classes, structs and enums with their properties, functions and values. A document
    is plain data; what makes it consistent is said in `EngineBridge.Model.Validity`. -/

namespace EngineBridge

/-- What a document permits. -/
abbrev DocumentAttributes := FlagSet ["ALLOW_FAST_INVOKE_GENERATION"]

/-- Trampolines may be generated for the document. -/
def DocumentAttributes.allowFastInvoke : DocumentAttributes := .single 0

abbrev TypeFlags := FlagSet ["ABSTRACT", "BLUEPRINT_TYPE", "DEPRECATED"]

namespace TypeFlags

def abstract : TypeFlags := .single 0
def blueprintType : TypeFlags := .single 1
def deprecated : TypeFlags := .single 2

end TypeFlags

abbrev FunctionFlags :=
  FlagSet ["NATIVE_CALLABLE", "SCRIPT_CALLABLE", "FAST_INVOKE_ELIGIBLE", "STATIC", "CONST", "EVENT"]

namespace FunctionFlags

/-- Managed code may call the function. -/
def nativeCallable : FunctionFlags := .single 0
/-- The engine's visual scripts may call the function. -/
def scriptCallable : FunctionFlags := .single 1
/-- The function asks for a trampoline. Whether it gets one depends on its layout. -/
def fastInvokeEligible : FunctionFlags := .single 2
def static : FunctionFlags := .single 3
def const : FunctionFlags := .single 4
/-- The function is implemented in managed code, and the engine calls it. -/
def event : FunctionFlags := .single 5

end FunctionFlags

abbrev PropertyFlags := FlagSet ["READ_ONLY", "SCRIPT_VISIBLE"]

namespace PropertyFlags

def readOnly : PropertyFlags := .single 0
def scriptVisible : PropertyFlags := .single 1

end PropertyFlags

namespace TypeKind

/-- The letter that the engine puts in front of a type's name. -/
def nativePrefix : TypeKind → String
  | .classKind => "U"
  | .structKind => "F"
  | .enumKind => "E"

/-- The keyword of the kind. -/
def keyword : TypeKind → String
  | .classKind => "class"
  | .structKind => "struct"
  | .enumKind => "enum"

end TypeKind

/-- Which way a parameter's value goes. -/
inductive Direction
  | inward
  | outward
  | inOut
deriving DecidableEq, Repr

namespace Direction

/-- The callee writes the value back. -/
def writesBack : Direction → Bool
  | .inward => false
  | .outward | .inOut => true

/-- The callee receives the value. -/
def takesIn : Direction → Bool
  | .inward | .inOut => true
  | .outward => false

end Direction

structure ParamRecord where
  name : String
  type : TypeRef
  direction : Direction
deriving DecidableEq, Repr

structure FunctionRecord where
  name : String
  params : List ParamRecord
  returnType : Option TypeRef
  flags : FunctionFlags
deriving DecidableEq, Repr

namespace FunctionRecord

def isStatic (f : FunctionRecord) : Bool := f.flags.contains FunctionFlags.static

def isEvent (f : FunctionRecord) : Bool := f.flags.contains FunctionFlags.event

/-- The types of the parameters and of the returned value. -/
def types (f : FunctionRecord) : List TypeRef := f.params.map (·.type) ++ f.returnType.toList

end FunctionRecord

structure PropertyRecord where
  name : String
  type : TypeRef
  flags : PropertyFlags
deriving DecidableEq, Repr

/-- A named value of an enum. -/
structure EnumValue where
  name : String
  value : Int64
deriving DecidableEq, Repr

/-- An engine type. -/
structure TypeRecord where
  name : String
  /-- The engine's module that the type comes from. -/
  module : String
  kind : TypeKind
  /-- The engine's spelling of the name, if it is not the usual one. -/
  nativeName? : Option String
  superType : Option String
  flags : TypeFlags
  properties : List PropertyRecord
  functions : List FunctionRecord
  enumValues : List EnumValue
  /-- The integer type behind an enum, if it is not the usual one. -/
  underlyingType? : Option TypeRef
deriving DecidableEq, Repr

namespace TypeRecord

/-- A type without members. -/
def bare (name module : String) (kind : TypeKind) : TypeRecord :=
  ⟨name, module, kind, none, none, .empty, [], [], [], none⟩

/-- The engine's name of the type, such as `UActor` for the class `Actor`. -/
def nativeName (t : TypeRecord) : String := t.nativeName?.getD (t.kind.nativePrefix ++ t.name)

/-- The type behind an enum; a byte unless it is told otherwise. -/
def underlying (t : TypeRecord) : TypeRef := t.underlyingType?.getD (.integer .uint8)

def function? (t : TypeRecord) (name : String) : Option FunctionRecord := t.functions.find? (·.name == name)

def property? (t : TypeRecord) (name : String) : Option PropertyRecord := t.properties.find? (·.name == name)

/-- The names of all members. -/
def memberNames (t : TypeRecord) : List String :=
  t.properties.map (·.name) ++ t.functions.map (·.name) ++ t.enumValues.map (·.name)

/-- The types that members refer to, each with the name of its member. -/
def memberTypes (t : TypeRecord) : List (String × TypeRef) :=
  t.properties.map (fun p => (p.name, p.type)) ++ t.functions.flatMap fun f => f.types.map (f.name, ·)

end TypeRecord

/-- All types of an engine version that are bound together. -/
structure Document where
  engineVersion : String
  attributes : DocumentAttributes
  types : List TypeRecord
deriving DecidableEq, Repr

namespace Document

/-- Trampolines may be generated. -/
def allowsFastInvoke (d : Document) : Bool := d.attributes.contains DocumentAttributes.allowFastInvoke

/-- The first type of that name. -/
def type? (d : Document) (name : String) : Option TypeRecord := d.types.find? (·.name == name)

/-- The number of functions of all types. -/
def functionCount (d : Document) : Nat := (d.types.flatMap (·.functions)).length

end Document

/-- A function of a type, by their names. -/
structure FunctionId where
  type : String
  function : String
deriving DecidableEq, Repr

namespace FunctionId

/-- The usual spelling. -/
def display (id : FunctionId) : String := id.type ++ "." ++ id.function

/-- The order of functions: by type, and then by name. -/
def le (a b : FunctionId) : Bool :=
  decide (a.type < b.type) || (a.type == b.type && (decide (a.function < b.function) || a.function == b.function))

/-- The functions in their order, each once. -/
def sorted (ids : List FunctionId) : List FunctionId := ids.eraseDups.mergeSort le

end FunctionId
end EngineBridge
