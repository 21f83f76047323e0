import EngineBridge.Model.Validity

/-! From declarations to a document: every type name is replaced by the type it stands for.

A name without arguments is one of the built-in types or a declared type; a name with arguments is a container, a
reference to a class, or a delegate. Anything else is unresolved. -/

namespace EngineBridge

/-- The built-in types under their names in source text. -/
def builtinTypes : List (String × TypeRef) :=
  [("bool", .bool), ("Boolean", .bool),
   ("sbyte", .integer .int8), ("SByte", .integer .int8),
   ("short", .integer .int16), ("Int16", .integer .int16),
   ("int", .integer .int32), ("Int32", .integer .int32),
   ("long", .integer .int64), ("Int64", .integer .int64),
   ("byte", .integer .uint8), ("Byte", .integer .uint8),
   ("ushort", .integer .uint16), ("UInt16", .integer .uint16),
   ("uint", .integer .uint32), ("UInt32", .integer .uint32),
   ("ulong", .integer .uint64), ("UInt64", .integer .uint64),
   ("float", .float), ("Single", .float),
   ("double", .double), ("Double", .double),
   ("string", .string), ("String", .string), ("FString", .string),
   ("FName", .name), ("FText", .text)]

/-- The built-in type of that name. -/
def builtin? (name : String) : Option TypeRef := builtinTypes.lookup name

/-- What a name with one argument makes of it. -/
inductive Wrapper
  | arrayOf
  | setOf
  | subclassOf
  | softObjectOf
  | delegateOf

/-- The names that take one argument. -/
def wrappers : List (String × Wrapper) :=
  [("TArray", .arrayOf), ("List", .arrayOf), ("IList", .arrayOf), ("IReadOnlyList", .arrayOf),
   ("TSet", .setOf), ("HashSet", .setOf), ("ISet", .setOf),
   ("TSubclassOf", .subclassOf), ("TSoftObjectPtr", .softObjectOf), ("TDelegate", .delegateOf)]

/-- The names that take a key and a value. -/
def mapNames : List String := ["TMap", "Dictionary", "IDictionary"]

/-- Declared types and their kinds, which a type expression is read against. -/
abbrev Scope := List (String × TypeKind)

namespace Scope

/-- The kind of the declared type of that name. -/
def kind? (s : Scope) (name : String) : Option TypeKind := s.lookup name

/-- The reference to a declared type. -/
def declared? (s : Scope) (name : String) : Option TypeRef :=
  (s.kind? name).map fun
    | .classKind => .object name
    | .structKind => .struct name
    | .enumKind => .enum name

/-- The type that an expression stands for, or the expression within it that stands for none. -/
def resolve (s : Scope) : TypeExpr → Except TypeExpr TypeRef
  | ⟨name, []⟩ =>
    match builtin? name <|> s.declared? name with
    | some t => .ok t
    | none => .error ⟨name, []⟩
  | ⟨name, [a]⟩ =>
    match wrappers.lookup name with
    | some .arrayOf => (resolve s a).map .array
    | some .setOf => (resolve s a).map .set
    | some .subclassOf => if s.kind? a.name = some .classKind then .ok (.classOf a.name) else .error ⟨name, [a]⟩
    | some .softObjectOf =>
      if s.kind? a.name = some .classKind then .ok (.softObject a.name) else .error ⟨name, [a]⟩
    | some .delegateOf => .ok (.delegate a.name)
    | none => .error ⟨name, [a]⟩
  | ⟨name, [a, b]⟩ =>
    if mapNames.contains name then do
      let key ← resolve s a
      let value ← resolve s b
      return .map key value
    else .error ⟨name, [a, b]⟩
  | e => .error e

/-- The type that a member's expression stands for. -/
def resolveIn (s : Scope) (owner member : String) (e : TypeExpr) : Except DocumentError TypeRef :=
  (s.resolve e).mapError fun bad => .unresolvedType owner member bad.render

end Scope

/-- The declared types, if no name is declared twice. -/
def Scope.ofDecls (decls : List TypeDecl) : Except DocumentError Scope :=
  match firstRepeated [] (decls.map (·.name)) with
  | some name => .error (.duplicateType name)
  | none => .ok (decls.map fun d => (d.name, d.kind))

/-- The first argument of the attribute of that name. -/
def Attribute.argument? (attributes : List Attribute) (name : String) : Option String :=
  (Attribute.find? attributes name).bind (·.args.head?)

namespace TypeDecl

/-- The engine's module of the type: what an attribute says, what the declaration says, the last part of the
    namespace, or else the given one. -/
def moduleOf (d : TypeDecl) (fallback : String) : String :=
  (Attribute.argument? d.attributes "NativeModule" <|> d.module
    <|> d.nspace.map fun ns => String.ofList ((splitOnChar '.' ns.toList).getLastD [])).getD fallback

/-- The flags of the type. -/
def typeFlags (d : TypeDecl) : TypeFlags :=
  let blueprint := (Attribute.find? d.attributes d.kind.marker).any (·.hasArg "BlueprintType")
  let flagIf (b : Bool) (f : TypeFlags) : TypeFlags := if b then f else .empty
  (flagIf (d.modifiers.contains "abstract") TypeFlags.abstract).union <|
    (flagIf (Attribute.find? d.attributes "Obsolete").isSome TypeFlags.deprecated).union
      (flagIf blueprint TypeFlags.blueprintType)

end TypeDecl

/-- The values of an enum's variants: the one that is written, or one more than the value before, beginning with
    zero. -/
def variantValues (owner : String) : Option Int64 → List VariantDecl → Except DocumentError (List EnumValue)
  | _, [] => .ok []
  | previous, v :: vs => do
    let value ← match v.value, previous with
      | some n, _ => .ok n
      | none, none => .ok 0
      | none, some p =>
        if p = Int64.maxValue then
          .error (.invalidType owner ("implicit value of '" ++ v.name ++ "' overflows"))
        else .ok (p + 1)
    let rest ← variantValues owner (some value) vs
    return ⟨v.name, value⟩ :: rest

namespace FieldDecl

/-- The flags of a property. -/
def propertyFlags (f : FieldDecl) (marker : Attribute) : PropertyFlags :=
  let readOnly := marker.hasArg "ReadOnly" || f.modifiers.contains "readonly" || f.modifiers.contains "const"
  let visible := marker.hasArg "ScriptVisible" || marker.hasArg "BlueprintReadWrite"
  (if readOnly then PropertyFlags.readOnly else .empty).union
    (if visible then PropertyFlags.scriptVisible else .empty)

/-- The property of a field, if it is marked as one. -/
def lower (s : Scope) (owner : String) (f : FieldDecl) : Except DocumentError (Option PropertyRecord) :=
  match Attribute.find? f.attributes "UProperty" with
  | none => .ok none
  | some marker => do
    let type ← s.resolveIn owner f.name f.type
    return some ⟨f.name, type, f.propertyFlags marker⟩

end FieldDecl

namespace MethodDecl

/-- The flag that an argument of the marker stands for. -/
def argumentFlag : String → FunctionFlags
  | "NativeCallable" => FunctionFlags.nativeCallable
  | "ScriptCallable" | "BlueprintCallable" => FunctionFlags.scriptCallable
  | "FastInvoke" => FunctionFlags.fastInvokeEligible
  | "Event" | "BlueprintImplementableEvent" => FunctionFlags.event
  | "Const" => FunctionFlags.const
  | _ => .empty

/-- The ways in which a function is reached; one that has none of them is callable from managed code. -/
def reachFlags : FunctionFlags :=
  (FunctionFlags.nativeCallable.union FunctionFlags.scriptCallable).union FunctionFlags.event

/-- The flags of a function. -/
def functionFlags (m : MethodDecl) (marker : Attribute) : FunctionFlags :=
  let flags : FunctionFlags := marker.args.foldl (fun a arg => a.union (argumentFlag arg)) .empty
  let flags := if flags.intersects reachFlags then flags else flags.union FunctionFlags.nativeCallable
  if m.modifiers.contains "static" then flags.union FunctionFlags.static else flags

end MethodDecl

/-- The direction of a parameter. -/
def ParamDecl.direction (p : ParamDecl) : Direction :=
  match p.modifier with
  | some .outward => .outward
  | some .byRef => .inOut
  | some .inward | none => .inward

namespace MethodDecl

/-- The function of a method, if it is marked as one. -/
def lower (s : Scope) (owner : String) (m : MethodDecl) : Except DocumentError (Option FunctionRecord) :=
  match Attribute.find? m.attributes "UFunction" with
  | none => .ok none
  | some marker => do
    let params ← m.params.mapM fun p => do
      let type ← s.resolveIn owner m.name p.type
      return ParamRecord.mk p.name type p.direction
    let returnType ←
      if m.ret.isVoid then pure none else some <$> s.resolveIn owner m.name m.ret
    return some ⟨m.name, params, returnType, m.functionFlags marker⟩

end MethodDecl

/-- The properties and functions of a list of members. -/
def lowerMembers (s : Scope) (owner : String) :
    List MemberDecl → Except DocumentError (List PropertyRecord × List FunctionRecord)
  | [] => .ok ([], [])
  | .field f :: ms => do
    let p ← f.lower s owner
    let (ps, fs) ← lowerMembers s owner ms
    return (p.toList ++ ps, fs)
  | .method m :: ms => do
    let f ← m.lower s owner
    let (ps, fs) ← lowerMembers s owner ms
    return (ps, f.toList ++ fs)

namespace TypeDecl

/-- The super type of a class: its base, if that is a declared class. -/
def superType (s : Scope) (d : TypeDecl) : Option String :=
  match d.kind, d.base with
  | .classKind, some base => if s.kind? base.name = some .classKind then some base.name else none
  | _, _ => none

/-- The record of a declaration. -/
def lower (s : Scope) (fallback : String) (d : TypeDecl) : Except DocumentError TypeRecord := do
  let bare := { TypeRecord.bare d.name (d.moduleOf fallback) d.kind with
    nativeName? := Attribute.argument? d.attributes "NativeName", flags := d.typeFlags }
  match d.kind with
  | .enumKind =>
    let underlying ← d.base.mapM (s.resolveIn d.name "<underlying>")
    let values ← variantValues d.name none d.variants
    return { bare with underlyingType? := underlying, enumValues := values }
  | .classKind | .structKind =>
    let (properties, functions) ← lowerMembers s d.name d.members
    return { bare with superType := d.superType s, properties, functions }

end TypeDecl

/-- The valid document of the declarations. -/
def Document.ofDecls (decls : List TypeDecl) (fallbackModule engineVersion : String)
    (attributes : DocumentAttributes) : Except DocumentError Document := do
  let scope ← Scope.ofDecls decls
  let types ← decls.mapM (·.lower scope fallbackModule)
  let document : Document := ⟨engineVersion, attributes, types⟩
  document.validate
  return document

end EngineBridge
