import EngineBridge.Export.Wrapper

/-! Placeholders: one file for each class or struct, with the members that its wrapper declares and leaves to the user.
The file belongs to the user once it is there. -/

namespace EngineBridge
namespace Placeholder

/-- The first lines of every file. -/
def head : List Code :=
  Code.banner "//" ["Generated once by sharpbind. This file belongs to you and is never overwritten."]
    ++ [.line "#nullable enable", .line "using System;", .blank]

/-- Gives an outward parameter a value. -/
def assignDefault (p : ParamRecord) : Except ExportError Code := do
  let name ← managedIdentifier p.name
  return .line (name ++ " = default;")

/-- An event that does nothing. -/
def eventCode (f : FunctionRecord) : Except ExportError Code := do
  let signature ← Wrapper.eventSignature f
  let assignments ← (f.params.filter fun p => p.direction == .outward).mapM assignDefault
  return .block signature (assignments ++ if f.returnType.isSome then [.line "return default;"] else [])

/-- Pieces of code with a blank line between two. -/
def separated : List Code → List Code
  | [] => []
  | [c] => [c]
  | c :: d :: cs => c :: .blank :: separated (d :: cs)

/-- The events of a type that the schema exposes. -/
def events (schema : BindingSchema) (t : TypeRecord) : List FunctionRecord :=
  t.functions.filter fun f => f.isEvent && schema.exposes f

/-- The keyword of a type that has a placeholder. -/
def keyword : TypeKind → String
  | .structKind => "struct"
  | _ => "class"

/-- What the user implements of every class. -/
def hooks (t : TypeRecord) : List Code :=
  if t.kind = .classKind then [.block "partial void OnBindingInitialized()" []] else []

/-- Where the placeholder of a type is written. -/
def typePath (t : TypeRecord) : Path := Path.join ⟨t.module⟩ ⟨t.name ++ ".defs.cs"⟩

/-- The placeholder of a class or struct. -/
def renderType (schema : BindingSchema) (t : TypeRecord) : Except ExportError Artifact := do
  let name ← managedIdentifier t.name
  let module ← managedIdentifier t.module
  let events ← (events schema t).mapM eventCode
  return {
    path := typePath t
    contents := Code.render <| head ++ [.block ("namespace SharpBind." ++ module)
      [.block ("public partial " ++ keyword t.kind ++ " " ++ name) (separated (hooks t ++ events))]] }

/-- What becomes of a type. -/
def outcomeOf (schema : BindingSchema) (t : TypeRecord) : Option Artifact × List ReportEntry :=
  match renderType schema t with
  | .ok a => (some a, [])
  | .error e => (none, [⟨t.name, .failed e.message⟩])

/-- The types that have a placeholder. -/
def typesOf (d : Document) : List TypeRecord := d.types.filter fun t => t.kind ≠ .enumKind

/-- The placeholders of all classes and structs, and a report of those that cannot be made. -/
def generate (c : BindingContext) : List Artifact × Report :=
  let outcomes := (typesOf c.document).map (outcomeOf c.schema)
  (outcomes.filterMap (·.1), (Report.start .placeholders).addAll (outcomes.flatMap (·.2)))

end Placeholder
end EngineBridge
