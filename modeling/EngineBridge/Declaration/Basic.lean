/-! Declarations as a source file or a manifest spells them. Type names stand as they were written; what they
    refer to is decided once every declaration is known. -/

namespace EngineBridge

/-- A type as a declaration spells it: a name and its arguments, such as `TMap<FName, TArray<int>>`. -/
structure TypeExpr where
  name : String
  args : List TypeExpr
deriving BEq, Repr, Inhabited

namespace TypeExpr

/-- A name without arguments. -/
def named (name : String) : TypeExpr := ⟨name, []⟩

/-- The spelling of "no value". -/
def isVoid (e : TypeExpr) : Bool := e.name == "void" && e.args.isEmpty

mutual
/-- The usual spelling: the name, and the arguments between angle brackets. -/
def render : TypeExpr → String
  | ⟨name, []⟩ => name
  | ⟨name, a :: as⟩ => name ++ "<" ++ String.intercalate ", " (renderAll (a :: as)) ++ ">"

/-- The spelling of each expression of a list. -/
def renderAll : List TypeExpr → List String
  | [] => []
  | e :: es => render e :: renderAll es
end

mutual
/-- Every name in the expression, from left to right. -/
def names : TypeExpr → List String
  | ⟨name, args⟩ => name :: namesAll args

/-- Every name in each expression of a list. -/
def namesAll : List TypeExpr → List String
  | [] => []
  | e :: es => names e ++ namesAll es
end

variable {e a : TypeExpr} {n : String}

theorem mem_namesAll {es : List TypeExpr} : n ∈ namesAll es ↔ ∃ e ∈ es, n ∈ e.names := by
  induction es with
  | nil => simp [namesAll]
  | cons e es ih => simp [namesAll, ih]

/-- A name of an expression is its own or that of an argument. -/
theorem mem_names : n ∈ e.names ↔ n = e.name ∨ ∃ a ∈ e.args, n ∈ a.names := by
  obtain ⟨name, args⟩ := e
  rw [names, List.mem_cons, mem_namesAll]

theorem name_mem_names (e : TypeExpr) : e.name ∈ e.names := mem_names.mpr (.inl rfl)

theorem mem_names_of_arg (ha : a ∈ e.args) (hn : n ∈ a.names) : n ∈ e.names := mem_names.mpr (.inr ⟨a, ha, hn⟩)

end TypeExpr

/-- A mark on a declaration, such as `[UFunction(NativeCallable)]`. -/
structure Attribute where
  name : String
  args : List String
deriving BEq, Repr

namespace Attribute

/-- The attribute may be spelled with or without the ending `Attribute`. -/
def isNamed (name : String) (a : Attribute) : Bool :=
  a.name == name || a.name == name ++ "Attribute"

/-- The first attribute of that name. -/
def find? (attributes : List Attribute) (name : String) : Option Attribute :=
  attributes.find? (isNamed name)

/-- The attribute has the given argument. -/
def hasArg (a : Attribute) (arg : String) : Bool := a.args.contains arg

end Attribute

/-- The three kinds of types, in declarations and in documents. -/
inductive TypeKind
  | classKind
  | structKind
  | enumKind
deriving DecidableEq, Repr

/-- How a parameter was marked. -/
inductive ParamModifier
  | inward
  | outward
  | byRef
deriving DecidableEq, Repr

structure ParamDecl where
  name : String
  type : TypeExpr
  modifier : Option ParamModifier
deriving BEq, Repr

structure FieldDecl where
  name : String
  type : TypeExpr
  attributes : List Attribute
  modifiers : List String
deriving BEq, Repr

structure MethodDecl where
  name : String
  ret : TypeExpr
  params : List ParamDecl
  attributes : List Attribute
  modifiers : List String
deriving BEq, Repr

/-- A member of a class or struct. -/
inductive MemberDecl
  | field (f : FieldDecl)
  | method (m : MethodDecl)
deriving BEq, Repr

namespace MemberDecl

/-- The types that the member's spelling contains, in the order in which they stand. -/
def types : MemberDecl → List TypeExpr
  | .field f => [f.type]
  | .method m => m.ret :: m.params.map (·.type)

end MemberDecl

/-- A value of an enum, with the number written behind it if there is one. -/
structure VariantDecl where
  name : String
  value : Option Int64
deriving BEq, Repr

/-- The declaration of a type. -/
structure TypeDecl where
  name : String
  kind : TypeKind
  module : Option String
  /-- The namespace around the declaration. -/
  nspace : Option String
  base : Option TypeExpr
  attributes : List Attribute
  modifiers : List String
  members : List MemberDecl
  variants : List VariantDecl
deriving BEq, Repr

namespace TypeDecl

/-- The type expressions of the declaration: its base and what its members mention. -/
def types (d : TypeDecl) : List TypeExpr :=
  d.base.toList ++ d.members.flatMap MemberDecl.types

/-- Every type name the declaration mentions, in order and with repetitions. -/
def mentions (d : TypeDecl) : List String := d.types.flatMap TypeExpr.names

end TypeDecl

/-- The attribute that hands a declaration of this kind to the engine. -/
def TypeKind.marker : TypeKind → String
  | .classKind => "UClass"
  | .structKind => "UStruct"
  | .enumKind => "UEnum"

/-- The declaration is meant for the engine: it carries the marker of its kind. -/
def TypeDecl.isExported (d : TypeDecl) : Bool :=
  (Attribute.find? d.attributes d.kind.marker).isSome

end EngineBridge
