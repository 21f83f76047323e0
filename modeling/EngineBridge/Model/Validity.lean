import EngineBridge.Model.Document
import EngineBridge.Model.Error

/-! When a document is consistent, and the check that finds its first fault.

Type names are distinct; no chain of super types comes back to a type it passed; the members of a type have
distinct names; only classes have a super type, which is a class of the document; the type behind an enum is an
integer type that holds all its values; and every reference names a type of the kind it expects. -/

namespace EngineBridge

/-- The first element that equals one before it. -/
def firstRepeated {α : Type} [BEq α] : List α → List α → Option α
  | _, [] => none
  | seen, a :: as => if seen.contains a then some a else firstRepeated (a :: seen) as

/-- The kind of the types that a reference may name. -/
def ReferenceKind.typeKind : ReferenceKind → TypeKind
  | .toClass => .classKind
  | .toStruct => .structKind
  | .toEnum => .enumKind

namespace Document

/-- The kind of the type of that name. -/
def kind? (d : Document) (name : String) : Option TypeKind := (d.type? name).map (·.kind)

/-- The super type of the type of that name. -/
def super? (d : Document) (name : String) : Option String := (d.type? name).bind (·.superType)

/-- Follows super types from `current`; the first name met a second time. After as many steps as there are types
    a chain has ended or come back. -/
def loopFrom (d : Document) : Nat → List String → String → Option String
  | 0, _, _ => none
  | fuel + 1, seen, current =>
    match d.super? current with
    | none => none
    | some parent => if seen.contains parent then some parent else loopFrom d fuel (parent :: seen) parent

/-- The name that the chain of super types of a type meets twice. -/
def loop? (d : Document) (name : String) : Option String := loopFrom d (d.types.length + 1) [name] name

/-- All references of a member's type name types of the expected kinds. -/
def checkReferences (d : Document) (owner member : String) (type : TypeRef) : Except DocumentError Unit :=
  match type.references.find? fun r => d.kind? r.2 != some r.1.typeKind with
  | some r => .error (.unresolvedType owner member r.2)
  | none => .ok ()

/-- The super type is one that a type of this kind may have. -/
def checkSuper (d : Document) (t : TypeRecord) : Except DocumentError Unit :=
  match t.superType with
  | none => .ok ()
  | some parent =>
    if t.kind ≠ .classKind then
      .error (.invalidType t.name ("only classes may have a super type ('" ++ parent ++ "')"))
    else if d.kind? parent ≠ some .classKind then .error (.unresolvedType t.name "<super>" parent)
    else .ok ()

end Document

namespace TypeRecord

/-- No two members have the same name. -/
def checkMembers (t : TypeRecord) : Except DocumentError Unit :=
  match firstRepeated [] t.memberNames with
  | some member => .error (.duplicateMember t.name member)
  | none => .ok ()

/-- The values of an enum fit into the type behind it. -/
def checkValues (t : TypeRecord) : Except DocumentError Unit :=
  if t.kind = .enumKind then
    match t.underlying.integer? with
    | none =>
      .error (.invalidType t.name ("enum underlying type must be an integer, found " ++ t.underlying.display))
    | some i =>
      match t.enumValues.find? fun v => !i.holds v.value.toInt with
      | some v =>
        .error (.invalidType t.name
          ("value " ++ toString v.value.toInt ++ " of '" ++ v.name ++ "' does not fit in " ++ t.underlying.display))
      | none => .ok ()
  else .ok ()

end TypeRecord

namespace Document

/-- The faults of one type, all names of the document being distinct. -/
def checkType (d : Document) (t : TypeRecord) : Except DocumentError Unit := do
  t.checkMembers
  d.checkSuper t
  t.checkValues
  t.memberTypes.forM fun m => d.checkReferences t.name m.1 m.2

/-- No chain of super types comes back to a type it passed. -/
def checkInheritance (d : Document) : Except DocumentError Unit :=
  d.types.forM fun t =>
    match d.loop? t.name with
    | some parent => .error (.invalidType t.name ("inheritance cycle through '" ++ parent ++ "'"))
    | none => .ok ()

/-- The first fault of a document. -/
def validate (d : Document) : Except DocumentError Unit := do
  match firstRepeated [] (d.types.map (·.name)) with
  | some name => .error (.duplicateType name)
  | none => .ok ()
  d.checkInheritance
  d.types.forM d.checkType

end Document
end EngineBridge
