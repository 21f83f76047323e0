import EngineBridge.Declaration.Basic
import EngineBridge.Json.Decode

/-! Declarations in JSON. A record writes its fields in the order of its structure; only arguments are left out where
there are none. -/

namespace EngineBridge

namespace TypeExpr

mutual
def toJson : TypeExpr → Json
  | ⟨name, []⟩ => .record [("name", .str name)]
  | ⟨name, a :: as⟩ => .record [("name", .str name), ("args", .array (toJsonAll (a :: as)))]

/-- Each expression of a list. -/
def toJsonAll : List TypeExpr → List Json
  | [] => []
  | e :: es => toJson e :: toJsonAll es
end

/-- An expression with arguments within arguments down to a limit. -/
def ofJson? : Nat → Json → Option TypeExpr
  | 0, _ => none
  | limit + 1, j => do
    match ← j.fields? ["name", "args"] with
    | [name, args] =>
      return ⟨← Json.required Json.string? name, ← Json.defaulted [] (Json.list? (ofJson? limit)) args⟩
    | _ => none

end TypeExpr

/-- How deep type expressions may be nested. -/
def typeExprLimit : Nat := 127

namespace Attribute

def toJson (a : Attribute) : Json :=
  .record ([("name", .str a.name)] ++ if a.args.isEmpty then [] else [("args", .texts a.args)])

def ofJson? (j : Json) : Option Attribute := do
  match ← j.fields? ["name", "args"] with
  | [name, args] =>
    return ⟨← Json.required Json.string? name, ← Json.defaulted [] (Json.list? Json.string?) args⟩
  | _ => none

end Attribute

namespace ParamModifier

def name : ParamModifier → String
  | inward => "In"
  | outward => "Out"
  | byRef => "Ref"

def ofJson? (j : Json) : Option ParamModifier := do
  let word ← j.word?
  [inward, outward, byRef].find? (·.name == word)

end ParamModifier

namespace ParamDecl

def toJson (p : ParamDecl) : Json := .record [
  ("name", .str p.name), ("ty", p.type.toJson), ("modifier", .option (fun m => .str m.name) p.modifier)]

def ofJson? (j : Json) : Option ParamDecl := do
  match ← j.fields? ["name", "ty", "modifier"] with
  | [name, type, modifier] =>
    return ⟨← Json.required Json.string? name, ← Json.required (TypeExpr.ofJson? typeExprLimit) type,
      ← Json.nullable ParamModifier.ofJson? modifier⟩
  | _ => none

end ParamDecl

namespace MemberDecl

def toJson : MemberDecl → Json
  | .field f => .record [("Field", .record [
      ("name", .str f.name), ("ty", f.type.toJson), ("attributes", .list Attribute.toJson f.attributes),
      ("modifiers", .texts f.modifiers)])]
  | .method m => .record [("Method", .record [
      ("name", .str m.name), ("ret", m.ret.toJson), ("params", .list ParamDecl.toJson m.params),
      ("attributes", .list Attribute.toJson m.attributes), ("modifiers", .texts m.modifiers)])]

def ofJson? : Json → Option MemberDecl
  | .object [(some "Field", j)] => do
    match ← j.fields? ["name", "ty", "attributes", "modifiers"] with
    | [name, type, attributes, modifiers] =>
      return .field ⟨← Json.required Json.string? name, ← Json.required (TypeExpr.ofJson? typeExprLimit) type,
        ← Json.defaulted [] (Json.list? Attribute.ofJson?) attributes,
        ← Json.defaulted [] (Json.list? Json.string?) modifiers⟩
    | _ => none
  | .object [(some "Method", j)] => do
    match ← j.fields? ["name", "ret", "params", "attributes", "modifiers"] with
    | [name, ret, params, attributes, modifiers] =>
      return .method ⟨← Json.required Json.string? name, ← Json.required (TypeExpr.ofJson? typeExprLimit) ret,
        ← Json.defaulted [] (Json.list? ParamDecl.ofJson?) params,
        ← Json.defaulted [] (Json.list? Attribute.ofJson?) attributes,
        ← Json.defaulted [] (Json.list? Json.string?) modifiers⟩
    | _ => none
  | _ => none

end MemberDecl

namespace VariantDecl

def toJson (v : VariantDecl) : Json :=
  .record [("name", .str v.name), ("value", .option (fun n => .int n.toInt) v.value)]

def ofJson? (j : Json) : Option VariantDecl := do
  match ← j.fields? ["name", "value"] with
  | [name, value] => return ⟨← Json.required Json.string? name, ← Json.nullable Json.int64? value⟩
  | _ => none

end VariantDecl

namespace TypeKind

/-- The word for the kind in declarations. -/
def declName : TypeKind → String
  | classKind => "Class"
  | structKind => "Struct"
  | enumKind => "Enum"

def ofDeclJson? (j : Json) : Option TypeKind := do
  let word ← j.word?
  [classKind, structKind, enumKind].find? (·.declName == word)

end TypeKind

namespace TypeDecl

def toJson (d : TypeDecl) : Json := .record [
  ("name", .str d.name), ("kind", .str d.kind.declName), ("module", .option .str d.module),
  ("namespace", .option .str d.nspace), ("base", .option TypeExpr.toJson d.base),
  ("attributes", .list Attribute.toJson d.attributes), ("modifiers", .texts d.modifiers),
  ("members", .list MemberDecl.toJson d.members), ("variants", .list VariantDecl.toJson d.variants)]

def ofJson? (j : Json) : Option TypeDecl := do
  match ← j.fields? ["name", "kind", "module", "namespace", "base", "attributes", "modifiers", "members", "variants"] with
  | [name, kind, module, nspace, base, attributes, modifiers, members, variants] =>
    return {
      name := ← Json.required Json.string? name
      kind := ← Json.required TypeKind.ofDeclJson? kind
      module := ← Json.nullable Json.string? module
      nspace := ← Json.nullable Json.string? nspace
      base := ← Json.nullable (TypeExpr.ofJson? typeExprLimit) base
      attributes := ← Json.defaulted [] (Json.list? Attribute.ofJson?) attributes
      modifiers := ← Json.defaulted [] (Json.list? Json.string?) modifiers
      members := ← Json.defaulted [] (Json.list? MemberDecl.ofJson?) members
      variants := ← Json.defaulted [] (Json.list? VariantDecl.ofJson?) variants }
  | _ => none

end TypeDecl
end EngineBridge
