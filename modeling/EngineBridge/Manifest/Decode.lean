import EngineBridge.Manifest.Notation
import EngineBridge.Declaration.Basic

/-! Manifests of compiled assemblies: the assembly's name, what it permits, and the declarations of its types.

What is read goes down a bounded number of levels: every group, list and part of one takes a level. -/

namespace EngineBridge

/-- What a manifest says about an assembly. -/
structure AssemblyManifest where
  assembly : String
  engineVersion : Option String
  allowFastInvoke : Bool
  types : List TypeDecl
deriving BEq, Repr

namespace Notation

/-- How values are read: extensions that are on, and the levels that are left. -/
structure Mode where
  implicitSome : Bool
  levels : Nat

namespace Mode

/-- One level further down. -/
def enter (m : Mode) : Option Mode := if m.levels = 0 then none else some { m with levels := m.levels - 1 }

end Mode

/-- Reads a value of some form. -/
abbrev Decoder (α : Type) := Mode → Datum → Option α

namespace Datum

/-- Names that stand for values of their own, and take no parts. -/
def fixedWords : List String := ["None", "true", "false", "inf", "NaN"]

/-- A name with parts may be passed over. -/
def mayGroup : Option String → Bool
  | some name => !fixedWords.contains name && name != "Some"
  | none => true

mutual
/-- A value that nobody asked for has the form of a value, with that many levels left. -/
def isPassable (levels : Nat) : Datum → Bool
  | .text _ | .character | .number .decimal => true
  | .number (.integer n) => decide (-170141183460469231731687303715884105728 ≤ n) && decide (n < 340282366920938463463374607431768211456)
  | .word name => name != "Some"
  | .list items => 2 ≤ levels && arePassable (levels - 2) items
  | .map entries => 2 ≤ levels && areEntriesPassable (levels - 2) entries
  | .tuple (some "Some") [d] => 1 ≤ levels && isPassable (levels - 1) d
  | .tuple name items => mayGroup name && 2 ≤ levels && arePassable (levels - 2) items
  | .fields name parts => mayGroup name && 2 ≤ levels && arePartsPassable (levels - 2) parts

def arePassable (levels : Nat) : List Datum → Bool
  | [] => true
  | d :: ds => isPassable levels d && arePassable levels ds

def areEntriesPassable (levels : Nat) : List (Datum × Datum) → Bool
  | [] => true
  | (k, v) :: es => isPassable levels k && isPassable levels v && areEntriesPassable levels es

def arePartsPassable (levels : Nat) : List (String × Datum) → Bool
  | [] => true
  | (_, d) :: ds => isPassable levels d && arePartsPassable levels ds
end

def text? : Decoder String
  | _, .text s => some s
  | _, _ => none

def bool? : Decoder Bool
  | _, .word "true" => some true
  | _, .word "false" => some false
  | _, _ => none

def int64? : Decoder Int64
  | _, .number (.integer n) =>
    if Int64.minValue.toInt ≤ n && n ≤ Int64.maxValue.toInt then some (Int64.ofInt n) else none
  | _, _ => none

/-- A value that may be missing: `None`, or `Some` with the value; where that is switched on, also the value alone. -/
def optional? {α : Type} (read : Decoder α) : Decoder (Option α)
  | _, .word "None" => some none
  | m, .tuple (some "Some") [d] => do return some (← read (← m.enter) d)
  | m, d => if m.implicitSome then do return some (← read (← m.enter) d) else none

/-- A list of values of one form. -/
def list? {α : Type} (read : Decoder α) : Decoder (List α)
  | m, .list items => do
    let inner ← m.enter
    items.mapM fun d => do read (← inner.enter) d
  | _, _ => none

/-- The values of the parts of that name, of which there may be one. -/
def single? (parts : List (String × Datum)) (name : String) : Option (Option Datum) :=
  match parts.filter fun p => p.1 == name with
  | [] => some none
  | [p] => some (some p.2)
  | _ => none

/-- The named parts of a record, in the order of the names, and how their values are read. -/
def parts? (names : List String) (m : Mode) (parts : List (String × Datum)) :
    Option (List (Option Datum) × Mode) := do
  let inner ← m.enter
  if parts.isEmpty then
    return (names.map fun _ => none, inner)
  let value ← inner.enter
  if parts.all fun p => names.contains p.1 || isPassable value.levels p.2 then
    return (← names.mapM (single? parts), value)
  else none

/-- The parts of a record, which may have the name of its type in front. -/
def record? (typeName : String) (names : List String) (m : Mode) : Datum → Option (List (Option Datum) × Mode)
  | .fields name parts => if name.all (· == typeName) then parts? names m parts else none
  | _ => none

/-- A part that must be there. -/
def required {α : Type} (read : Decoder α) (m : Mode) (part : Option Datum) : Option α := part.bind (read m)

/-- A part that has a value of its own when it is missing. -/
def defaulted {α : Type} (missing : α) (read : Decoder α) (m : Mode) : Option Datum → Option α
  | none => some missing
  | some d => read m d

/-- A word of a fixed choice. -/
def choice? {α : Type} (choices : List (String × α)) : Decoder α
  | m, .word name => do
    let inner ← m.enter
    let _ ← inner.enter
    choices.lookup name
  | _, _ => none

end Datum

open Datum

/-- Reads a type that is nested no deeper than `fuel`. -/
def typeExpr? : Nat → Decoder TypeExpr
  | 0, _, _ => none
  | fuel + 1, m, d => do
    match ← record? "TypeExpr" ["name", "args"] m d with
    | ([name, args], m) =>
      return ⟨← required text? m name, ← defaulted [] (list? (typeExpr? fuel)) m args⟩
    | _ => none

/-- A type. It takes levels, so that these bound how deep it is nested. -/
def type? : Decoder TypeExpr := fun m d => typeExpr? (m.levels + 1) m d

def attribute? : Decoder Attribute := fun m d => do
  match ← record? "Attribute" ["name", "args"] m d with
  | ([name, args], m) => return ⟨← required text? m name, ← defaulted [] (list? text?) m args⟩
  | _ => none

def kind? : Decoder TypeKind := choice? [("Class", .classKind), ("Struct", .structKind), ("Enum", .enumKind)]

def paramModifier? : Decoder ParamModifier := choice? [("In", .inward), ("Out", .outward), ("Ref", .byRef)]

def param? : Decoder ParamDecl := fun m d => do
  match ← record? "ParamDecl" ["name", "ty", "modifier"] m d with
  | ([name, type, modifier], m) =>
    return ⟨← required text? m name, ← required type? m type,
      ← defaulted none (optional? paramModifier?) m modifier⟩
  | _ => none

/-- A field or method: its word, and its parts between parentheses. -/
def member? : Decoder MemberDecl := fun m d => do
  let inner ← m.enter
  match d with
  | .fields (some "Field") parts =>
    match ← parts? ["name", "ty", "attributes", "modifiers"] inner parts with
    | ([name, type, attributes, modifiers], m) =>
      return .field ⟨← required text? m name, ← required type? m type,
        ← defaulted [] (list? attribute?) m attributes, ← defaulted [] (list? text?) m modifiers⟩
    | _ => none
  | .fields (some "Method") parts =>
    match ← parts? ["name", "ret", "params", "attributes", "modifiers"] inner parts with
    | ([name, ret, params, attributes, modifiers], m) =>
      return .method ⟨← required text? m name, ← required type? m ret, ← defaulted [] (list? param?) m params,
        ← defaulted [] (list? attribute?) m attributes, ← defaulted [] (list? text?) m modifiers⟩
    | _ => none
  | _ => none

def variant? : Decoder VariantDecl := fun m d => do
  match ← record? "VariantDecl" ["name", "value"] m d with
  | ([name, value], m) => return ⟨← required text? m name, ← defaulted none (optional? int64?) m value⟩
  | _ => none

def typeDecl? : Decoder TypeDecl := fun m d => do
  match ← record? "TypeDecl" ["name", "kind", "module", "namespace", "base", "attributes", "modifiers", "members",
    "variants"] m d with
  | ([name, kind, module, nspace, base, attributes, modifiers, members, variants], m) =>
    return {
      name := ← required text? m name
      kind := ← required kind? m kind
      module := ← defaulted none (optional? text?) m module
      nspace := ← defaulted none (optional? text?) m nspace
      base := ← defaulted none (optional? type?) m base
      attributes := ← defaulted [] (list? attribute?) m attributes
      modifiers := ← defaulted [] (list? text?) m modifiers
      members := ← defaulted [] (list? member?) m members
      variants := ← defaulted [] (list? variant?) m variants }
  | _ => none

def assembly? : Decoder AssemblyManifest := fun m d => do
  match ← record? "AssemblyManifest" ["assembly", "engine_version", "allow_fast_invoke", "types"] m d with
  | ([assembly, version, allow, types], m) =>
    return {
      assembly := ← required text? m assembly
      engineVersion := ← defaulted none (optional? text?) m version
      allowFastInvoke := ← defaulted false bool? m allow
      types := ← defaulted [] (list? typeDecl?) m types }
  | _ => none

/-- The levels that a manifest may go down. -/
def levelLimit : Nat := 128

end Notation

/-- The manifest that a text holds. -/
def AssemblyManifest.ofText? (s : String) : Option AssemblyManifest := do
  let (extensions, d) ← Notation.parse? s
  Notation.assembly? ⟨extensions.contains .implicitSome, Notation.levelLimit⟩ d

end EngineBridge
