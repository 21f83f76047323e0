import EngineBridge.Source.Token
import EngineBridge.Declaration.Basic

/-! The declarations of a source file.

Types are classes, structs and enums, with attributes and modifiers in front. Of a class or struct the fields
and methods are kept, constructors and finalizers are read and left out. What stands between the braces of a
method or property is skipped: only the balance of its braces matters. -/

namespace EngineBridge.Source
open EngineBridge.Parser

/-! ### Types -/

/-- A type with its arguments, given a parser for the arguments. -/
def typeExprWith (typeExpr : Parser TypeExpr) : Parser TypeExpr := do
  let name ← lastOfPath
  let args ← optional (between (symbol "<") (symbol ">") (sepBy1 typeExpr (symbol ",")))
  let _ ← optional (symbol "?")
  let rank ← many (symbol "[]")
  return rank.foldl (fun e _ => ⟨"TArray", [e]⟩) ⟨name, args.getD []⟩

/-- A type: `int`, `Engine.Actor`, `TMap<FName, int>`, `Actor?`, `float[]`. Of a name with points the last
    part counts, and `T[]` is an array of `T`. -/
def typeExpr : Parser TypeExpr := recursive typeExprWith

/-! ### Attributes and modifiers -/

/-- A text between double quotes; nothing in it is an escape. -/
def quotedText : Parser String := do
  text "\""
  let cs ← run (· != '"')
  text "\""
  return String.ofList cs

/-- An argument of an attribute, as text. -/
def argumentValue : Parser String := padded <|
  quotedText <|>
  (do let n ← integerLiteral; return toString n.toInt) <|>
  (do let p ← path; return String.intercalate "." p)

/-- One argument: a key with its value, or flags joined by bars. -/
def attributeArgument : Parser (List String) :=
  (do
    let key ← padded word
    symbol "="
    let value ← argumentValue
    return [key ++ "=" ++ value]) <|>
  sepBy1 argumentValue (symbol "|")

/-- The arguments of an attribute. -/
def attributeArguments : Parser (List String) := do
  let groups ← between (symbol "(") (symbol ")") (sepEndBy attributeArgument (symbol ","))
  return groups.flatten

/-- An attribute with its arguments. -/
def oneAttribute : Parser Attribute := do
  let name ← lastOfPath
  let args ← optional attributeArguments
  return ⟨name, args.getD []⟩

/-- All attributes in front of a declaration. -/
def attributes : Parser (List Attribute) := do
  let groups ← many (between (symbol "[") (symbol "]") (sepBy1 oneAttribute (symbol ",")))
  return groups.flatten

/-- The words that may stand in front of a declaration. -/
def modifierWords : List String :=
  ["public", "private", "protected", "internal", "static", "partial", "abstract", "sealed",
   "virtual", "override", "readonly", "extern", "unsafe", "new", "const", "volatile"]

/-- A word that may stand in front of a declaration; any other word is refused by name. -/
def modifier : Parser String := padded <| checked word fun w =>
  if modifierWords.contains w then .ok w else .error ("'" ++ w ++ "' is not a modifier")

/-- All modifiers in front of a declaration. -/
def modifiers : Parser (List String) := many modifier

/-! ### Bodies -/

/-- Text up to a character of the given ones, which is not read. -/
def skipTo (ends : List Char) : Parser Unit := do
  let _ ← run (!ends.contains ·)

/-- A literal of one line between two equal quotes. -/
def quoted (quote : Char) : Parser Unit := do
  exactly [quote]
  skipTo [quote, '\n']
  exactly [quote]

/-- A piece of a body, given a parser for the blocks within. -/
def bodyPiece (block : Parser Unit) : Parser Unit :=
  comment <|> quoted '"' <|> quoted '\'' <|> block <|>
    (do let _ ← satisfy fun c => c ∉ ['{', '}', '"', '\''])

/-- A balanced block between braces; braces in comments and literals do not count. -/
def block : Parser Unit := padded <| recursive fun block =>
  between (exactly ['{']) (exactly ['}']) do
    let _ ← many (bodyPiece block)

/-! ### Members -/

/-- The mark in front of a parameter's type. -/
def paramModifier : Parser ParamModifier :=
  (do keyword "out"; return .outward) <|>
  (do keyword "ref"; return .byRef) <|>
  (do keyword "in"; return .inward)

/-- A parameter; its default value does not matter. -/
def param : Parser ParamDecl := do
  let _ ← attributes
  let modifier ← optional paramModifier
  let type ← typeExpr
  let name ← identifier
  let _ ← optional do
    symbol "="
    skipTo [',', ')']
  return ⟨name, type, modifier⟩

/-- The parameters of a method. -/
def params : Parser (List ParamDecl) :=
  between (symbol "(") (symbol ")") (sepEndBy param (symbol ","))

/-- A body that is one expression. -/
def arrowBody : Parser Unit := padded do
  text "=>"
  skipTo [';']
  text ";"

/-- The value that a field starts with. -/
def initializer : Parser Unit := do
  symbol "="
  skipTo [';']

/-- What ends a method. -/
def methodBody : Parser Unit := symbol ";" <|> arrowBody <|> block

/-- What ends a field or property. -/
def fieldTail : Parser Unit :=
  (do let _ ← optional initializer; symbol ";") <|>
  (do block; let _ ← optional (do initializer; symbol ";")) <|>
  arrowBody

/-- A member with the given marks in front; constructors and finalizers give nothing. -/
def memberAfter (attributes : List Attribute) (modifiers : List String) : Parser (Option MemberDecl) :=
  (do
    let ret ← typeExpr
    let name ← identifier
    let params ← params
    methodBody
    return some (.method ⟨name, ret, params, attributes, modifiers⟩)) <|>
  (do
    let type ← typeExpr
    let name ← identifier
    fieldTail
    return some (.field ⟨name, type, attributes, modifiers⟩)) <|>
  (do
    let _ ← optional (symbol "~")
    let _ ← identifier
    let _ ← params
    methodBody
    return none)

/-- A member of a class or struct. -/
def member : Parser (Option MemberDecl) := do
  let attributes ← attributes
  let modifiers ← modifiers
  memberAfter attributes modifiers

/-! ### Types and files -/

/-- The opening brace. -/
def openBrace : Parser Unit := padded (exactly ['{'])

/-- The closing brace. -/
def closeBrace : Parser Unit := padded (exactly ['}'])

/-- The first of the types a declaration is based on. -/
def base : Parser (Option TypeExpr) := do
  let bases ← optional (do symbol ":"; sepBy1 typeExpr (symbol ","))
  return bases.bind List.head?

/-- A class or struct. -/
def record : Parser TypeDecl := do
  let attributes ← attributes
  let modifiers ← modifiers
  let kind ← (do keyword "class"; return TypeKind.classKind) <|> (do keyword "struct"; return .structKind)
  let name ← identifier
  let base ← base
  let members ← between openBrace closeBrace (many member)
  return {
    name, kind, base, attributes, modifiers
    module := none, nspace := none
    members := members.filterMap id, variants := [] }

/-- A value of an enum. -/
def variant : Parser VariantDecl := do
  let _ ← attributes
  let name ← identifier
  let value ← optional (do symbol "="; integerLiteral)
  return ⟨name, value⟩

/-- An enum. -/
def enumeration : Parser TypeDecl := do
  let attributes ← attributes
  let modifiers ← modifiers
  keyword "enum"
  let name ← identifier
  let base ← base
  let variants ← between openBrace closeBrace (sepEndBy variant (symbol ","))
  return {
    name, base, attributes, modifiers, variants
    kind := .enumKind, module := none, nspace := none, members := [] }

/-- A declaration of a type. -/
def typeDecl : Parser TypeDecl := do
  let d ← record <|> enumeration
  let _ ← optional (symbol ";")
  return d

/-- A part of a file. -/
inductive Item
  /-- Nothing that matters. -/
  | skipped
  /-- The namespace of all that follows. -/
  | fileNamespace (name : String)
  /-- Declarations. -/
  | types (decls : List TypeDecl)

/-- A declaration that has no namespace yet is in the given one. -/
def TypeDecl.within (nspace : Option String) (d : TypeDecl) : TypeDecl :=
  { d with nspace := d.nspace <|> nspace }

/-- The declarations of a file's parts, starting in the given namespace. -/
def flatten : Option String → List Item → List TypeDecl
  | _, [] => []
  | current, .skipped :: items => flatten current items
  | _, .fileNamespace name :: items => flatten (some name) items
  | current, .types decls :: items => decls.map (TypeDecl.within current) ++ flatten current items

/-- A namespace written out with points. -/
def namespaceName : Parser String := do
  let p ← padded path
  return String.intercalate "." p

/-- One part of a file, given a parser for the declarations within a namespace. -/
def item (decls : Parser (List TypeDecl)) : Parser Item :=
  (do
    keyword "using"
    skipTo [';']
    symbol ";"
    return Item.skipped) <|>
  (do
    keyword "namespace"
    let name ← namespaceName
    symbol ";"
    return .fileNamespace name) <|>
  (do
    keyword "namespace"
    let name ← namespaceName
    let decls ← between openBrace closeBrace decls
    return .types (decls.map (TypeDecl.within (some name)))) <|>
  (do
    let d ← typeDecl
    return .types [d])

/-- The declarations that stand one after the other. -/
def declarations : Parser (List TypeDecl) := recursive fun decls => do
  let items ← many (item decls)
  return flatten none items

/-- The declarations of a whole file. -/
def file : Parser (List TypeDecl) := do
  trivia
  declarations

end EngineBridge.Source
