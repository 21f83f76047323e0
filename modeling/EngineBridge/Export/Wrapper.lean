import EngineBridge.Export.Trampoline

/-! Wrappers: one file of managed code for each type.

A function that the schema exposes is an event, which is only declared; a function of an instance of a struct, which is
not bound; or it is bound to its trampoline if it has one, and looked up by its name otherwise. -/

namespace EngineBridge
namespace Wrapper

/-- The base of classes without a super type. -/
def rootClass : String := "NativeObject"

/-- The first lines of every file. -/
def head : List Code :=
  Code.banner "//" ["<auto-generated>",
      "Generated by sharpbind. Changes to this file are lost on regeneration.", "</auto-generated>"]
    ++ [.line "#nullable enable", .line "using System;", .line "using System.Collections.Generic;",
      .line "using System.Runtime.InteropServices;", .line "using SharpBind.Runtime;", .blank]

/-- The mark of a parameter's direction. -/
def directionMark : Direction → String
  | .inward => ""
  | .outward => "out "
  | .inOut => "ref "

/-- A parameter of a signature. -/
def paramText (p : ParamRecord) : Except ExportError String := do
  let name ← managedIdentifier p.name
  return directionMark p.direction ++ p.type.managedName ++ " " ++ name

/-- The type of what a function gives back. -/
def returnTypeText (f : FunctionRecord) : String := (f.returnType.map (·.managedName)).getD "void"

/-- The signature of a function. -/
def signature (f : FunctionRecord) : Except ExportError String := do
  let params ← f.params.mapM paramText
  let name ← managedIdentifier f.name
  return returnTypeText f ++ " " ++ name ++ "(" ++ String.intercalate ", " params ++ ")"

/-- The signature of an event. -/
def eventSignature (f : FunctionRecord) : Except ExportError String := do
  let s ← signature f
  return "public partial " ++ s

/-- The field that holds how a function is called. -/
def invocableField (f : FunctionRecord) : String := f.name ++ "_Invocable"

/-! ### Direct calls -/

/-- Puts an argument into the frame. -/
def writeSlot (slot : FrameSlot) (type : TypeRef) (value : String) : Code :=
  let place := toString slot.offset ++ ", " ++ value ++ ");"
  match type with
  | .object _ => .line ("frame.WriteHandle(" ++ place)
  | .classOf _ => .line ("frame.WriteClass(" ++ place)
  | other => .line ("frame.Write<" ++ other.managedName ++ ">(" ++ place)

/-- What takes a value of the type out of the frame. -/
def reader (type : TypeRef) (source : String) : String :=
  match type with
  | .object t => "frame." ++ source ++ "Handle<" ++ t ++ ">"
  | .classOf t => "frame." ++ source ++ "Class<" ++ t ++ ">"
  | other => "frame." ++ source ++ "<" ++ other.managedName ++ ">"

/-- A parameter and its place in the frame. -/
abbrev PlacedParam := ParamRecord × FrameSlot

/-- The parameters of a function with their places. -/
def placedParams (f : FunctionRecord) (layout : FrameLayout) : List PlacedParam := f.params.zip layout.params

/-- Puts a parameter into the frame. -/
def writeParam (p : PlacedParam) : Except ExportError Code := do
  let name ← managedIdentifier p.1.name
  return writeSlot p.2 p.1.type name

/-- Takes a parameter out of the frame. -/
def readParam (p : PlacedParam) : Except ExportError Code := do
  let name ← managedIdentifier p.1.name
  return .line (name ++ " = " ++ reader p.1.type "Read" ++ "(" ++ toString p.2.offset ++ ");")

/-- The body of a function that calls its trampoline. -/
def directBody (f : FunctionRecord) (layout : FrameLayout) : Except ExportError (List Code) := do
  let placed := placedParams f layout
  let writes ← (placed.filter fun p => p.1.direction.takesIn).mapM writeParam
  let reads ← (placed.filter fun p => p.1.direction.writesBack).mapM readParam
  return [.line ("using var frame = new InteropFrame(" ++ toString layout.size ++ ", "
      ++ toString layout.returnSize ++ ");")]
    ++ (if layout.receiver then [.line "frame.WriteHandle(0, this);"] else [])
    ++ writes ++ [.line (invocableField f ++ ".Invoke(frame);")] ++ reads
    ++ (match f.returnType with
        | some t => [.line ("return " ++ reader t "ReadReturn" ++ "();")]
        | none => [])

/-! ### Calls by name -/

/-- A value of an untyped list as the type; only objects may be missing. -/
def cast (type : TypeRef) (value : String) : String :=
  match type with
  | .object _ => "(" ++ type.managedName ++ ")" ++ value
  | _ => "(" ++ type.managedName ++ ")" ++ value ++ "!"

/-- What a parameter puts into the list of arguments. -/
def argumentText (p : ParamRecord) : Except ExportError String :=
  if p.direction.takesIn then managedIdentifier p.name else .ok ("default(" ++ p.type.managedName ++ ")")

/-- Takes a parameter out of the list of arguments. -/
def readArgument (p : ParamRecord × Nat) : Except ExportError Code := do
  let name ← managedIdentifier p.1.name
  return .line (name ++ " = " ++ cast p.1.type ("args[" ++ toString p.2 ++ "]") ++ ";")

/-- The body of a function that is looked up by its name. -/
def lookupBody (f : FunctionRecord) : Except ExportError (List Code) := do
  let values ← f.params.mapM argumentText
  let reads ← (f.params.zipIdx.filter fun p => p.1.direction.writesBack).mapM readArgument
  let target := if f.isStatic then "null" else "this"
  let call := invocableField f ++ ".Invoke(" ++ target ++ ", args)"
  return [.line ("object?[] args = \x7b " ++ String.intercalate ", " values ++ " \x7d;"),
      .line (if f.returnType.isSome then "var result = " ++ call ++ ";" else call ++ ";")]
    ++ reads
    ++ (match f.returnType with
        | some t => [.line ("return " ++ cast t "result" ++ ";")]
        | none => [])

/-! ### The functions of a type -/

/-- How a wrapper serves an exposed function. -/
inductive Service
  /-- Declared, and implemented by the user. -/
  | event
  /-- Not bound, for the reason given. -/
  | unbound (reason : String)
  /-- Calls the trampoline with a frame of that layout. -/
  | direct (layout : FrameLayout)
  /-- Is looked up by its name; the reason tells why, if it should have been called directly. -/
  | byName (reason : Option String)

/-- How a wrapper serves a function, given the functions that have a trampoline. -/
def serviceOf (d : Document) (fast : List FunctionId) (c : Candidate) : Service :=
  if c.function.isEvent then .event
  else if c.owner.kind = .structKind && !c.function.isStatic then
    .unbound "instance functions on structs are not bound"
  else if fast.contains c.id then
    match FrameLayout.ofFunction d c.owner c.function with
    | .ok layout => .direct layout
    | .error e => .byName (some ("frame layout unavailable, using reflection dispatch: " ++ e.message))
  else .byName none

/-- The exposed functions of a type and how they are served. -/
def services (c : BindingContext) (fast : List FunctionId) (t : TypeRecord) : List (Candidate × Service) :=
  (t.functions.filter c.schema.exposes).map fun f => (⟨t, f⟩, serviceOf c.document fast ⟨t, f⟩)

/-- What the report says about a function that is not served as it should be. -/
def serviceEntry (s : Candidate × Service) : Option ReportEntry :=
  match s.2 with
  | .unbound reason | .byName (some reason) => some ⟨s.1.id.display, .recovered reason⟩
  | _ => none

/-- The function is called through a field of its own. -/
def isBound (s : Candidate × Service) : Bool :=
  match s.2 with
  | .direct _ | .byName _ => true
  | _ => false

/-- The field of a bound function. -/
def fieldCode (s : Candidate × Service) : Code :=
  let value := match s.2 with
    | .direct layout =>
      "Invocable.Direct(\"" ++ trampolineSymbol s.1.id ++ "\", " ++ toString layout.size ++ ", "
        ++ toString layout.returnSize ++ ");"
    | _ => "Invocable.Lookup(\"" ++ s.1.owner.name ++ "\", \"" ++ s.1.function.name ++ "\");"
  .line ("static readonly Invocable " ++ invocableField s.1.function ++ " = " ++ value)

/-- The method of a bound function. -/
def methodCode (s : Candidate × Service) : Except ExportError (List Code) := do
  let f := s.1.function
  let signature ← signature f
  let body ← match s.2 with
    | .direct layout => directBody f layout
    | _ => lookupBody f
  return [.blank, .block ("public " ++ (if f.isStatic then "static " else "") ++ signature) body]

/-- Declares the events of a list of functions, up to the first that cannot be spelled; and tells what is reported of
the functions before it. -/
def eventsCode : List (Candidate × Service) → List ReportEntry × Except ExportError (List Code)
  | [] => ([], .ok [])
  | s :: rest =>
    match s.2, eventSignature s.1.function with
    | .event, .error e => ([], .error e)
    | .event, .ok signature =>
      let (entries, code) := eventsCode rest
      (entries, code.map ([.blank, .line (signature ++ ";")] ++ ·))
    | _, _ =>
      let (entries, code) := eventsCode rest
      ((serviceEntry s).toList ++ entries, code)

/-- The events, fields and methods of a type, and what is reported of its functions. -/
def functionsCode (c : BindingContext) (fast : List FunctionId) (t : TypeRecord) :
    List ReportEntry × Except ExportError (List Code) :=
  let all := services c fast t
  let (entries, events) := eventsCode all
  (entries, do
    let events ← events
    let bound := all.filter isBound
    if bound.isEmpty then return events
    let methods ← bound.mapM methodCode
    return events ++ [.blank] ++ bound.map fieldCode ++ methods.flatten)

/-! ### Types -/

/-- A property of a class. -/
def propertyCode (p : PropertyRecord) : Except ExportError (List Code) := do
  let name ← managedIdentifier p.name
  let type := p.type.managedName
  let getter := Code.line ("get => ReflectionAccess.Get<" ++ type ++ ">(this, \"" ++ p.name ++ "\");")
  let setter := Code.line ("set => ReflectionAccess.Set(this, \"" ++ p.name ++ "\", value);")
  return [.blank, .block ("public " ++ type ++ " " ++ name)
    (if p.flags.contains PropertyFlags.readOnly then [getter] else [getter, setter])]

/-- A field of a struct. -/
def structFieldCode (p : PropertyRecord) : Except ExportError Code := do
  let name ← managedIdentifier p.name
  return .line ("public " ++ p.type.managedName ++ " " ++ name ++ ";")

/-- A value of an enum. -/
def enumValueCode (v : EnumValue) : Except ExportError Code := do
  let name ← managedIdentifier v.name
  return .line (name ++ " = " ++ toString v.value.toInt ++ ",")

/-- An enum. -/
def enumCode (t : TypeRecord) (name : String) : Except ExportError (List Code) := do
  let values ← t.enumValues.mapM enumValueCode
  return [.block ("public enum " ++ name ++ " : " ++ t.underlying.managedName) values]

/-- What stands between the braces of a class, before its properties. -/
def classHead (t : TypeRecord) (name : String) : List Code :=
  [.line ("public static readonly NativeType NativeType = NativeType.Find(\"" ++ t.nativeName ++ "\");"),
   .blank,
   .block ("public " ++ name ++ "(IntPtr handle) : base(handle)") [.line "OnBindingInitialized();"],
   .blank,
   .line "partial void OnBindingInitialized();"]

/-- The class that a class is derived from. -/
def baseName (t : TypeRecord) : Except ExportError String :=
  match t.superType with
  | some parent => managedIdentifier parent
  | none => .ok rootClass

/-- The declaration of a type, and what is reported of its functions. -/
def typeCode (c : BindingContext) (fast : List FunctionId) (t : TypeRecord) (name : String) :
    List ReportEntry × Except ExportError (List Code) :=
  match t.kind with
  | .enumKind => ([], enumCode t name)
  | .structKind =>
    match t.properties.mapM structFieldCode with
    | .error e => ([], .error e)
    | .ok fields =>
      let (entries, functions) := functionsCode c fast t
      (entries, functions.map fun functions =>
        [.line "[StructLayout(LayoutKind.Sequential)]",
         .block ("public partial struct " ++ name) (fields ++ functions)])
  | .classKind =>
    let parts := do
      let base ← baseName t
      let properties ← (t.properties.filter c.schema.exposesProperty).mapM propertyCode
      return (base, properties.flatten)
    match parts with
    | .error e => ([], .error e)
    | .ok (base, properties) =>
      let (entries, functions) := functionsCode c fast t
      let modifier :=
        if t.flags.contains TypeFlags.abstract then "public abstract partial class " else "public partial class "
      (entries, functions.map fun functions =>
        [.block (modifier ++ name ++ " : " ++ base) (classHead t name ++ properties ++ functions)])

/-- Where the wrapper of a type is written. -/
def typePath (t : TypeRecord) : Path := Path.join ⟨t.module⟩ ⟨t.name ++ ".gen.cs"⟩

/-- The wrapper of a type, and what is reported of its functions. -/
def renderType (c : BindingContext) (fast : List FunctionId) (t : TypeRecord) :
    List ReportEntry × Except ExportError Artifact :=
  let names := do
    let name ← managedIdentifier t.name
    let module ← managedIdentifier t.module
    return (name, module)
  match names with
  | .error e => ([], .error e)
  | .ok (name, module) =>
    let (entries, code) := typeCode c fast t name
    (entries, code.map fun code => {
      path := typePath t
      contents := Code.render <| head ++ [.block ("namespace SharpBind." ++ module)
        ((if t.flags.contains TypeFlags.deprecated then [.line "[Obsolete]"] else []) ++ code)] })

/-- What the stage makes. -/
structure Output where
  root : Path
  artifacts : List Artifact
  report : Report

/-- What becomes of a type: its file, and what is reported of its functions and of itself. -/
def outcomeOf (c : BindingContext) (fast : List FunctionId) (t : TypeRecord) : Option Artifact × List ReportEntry :=
  match renderType c fast t with
  | (entries, .ok a) => (some a, entries ++ [⟨t.name, .success⟩])
  | (entries, .error e) => (none, entries ++ [⟨t.name, .failed e.message⟩])

/-- The wrappers of all types; nothing is written. It must be known which functions have a trampoline. -/
def generate (c : BindingContext) : Except ContextError Output := do
  let fast ← c.fastFunctions
  let outcomes := c.document.types.map (outcomeOf c fast)
  return {
    root := c.managedRoot
    artifacts := outcomes.filterMap (·.1)
    report := (Report.start .wrappers).addAll (outcomes.flatMap (·.2)) }

end Wrapper
end EngineBridge
