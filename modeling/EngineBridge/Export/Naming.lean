import EngineBridge.Export.Problem

/-! Names in generated code. An identifier has letters, digits and underscores of ASCII; a word that managed code keeps
for itself is marked with an at sign. -/

namespace EngineBridge

/-- The character may begin an identifier of generated code. -/
def startsName (c : Char) : Bool := c.isAlpha || c == '_'

/-- The character may stand in an identifier of generated code. -/
def inName (c : Char) : Bool := c.isAlphanum || c == '_'

/-- The text is an identifier of generated code. -/
def isIdentifier (name : String) : Bool :=
  match name.toList with
  | [] => false
  | c :: cs => startsName c && cs.all inName

/-- The words that managed code keeps for itself. -/
def managedKeywords : List String :=
  ["abstract", "as", "base", "bool", "break", "byte", "case", "catch", "char", "checked",
   "class", "const", "continue", "decimal", "default", "delegate", "do", "double", "else",
   "enum", "event", "explicit", "extern", "false", "finally", "fixed", "float", "for",
   "foreach", "goto", "if", "implicit", "in", "int", "interface", "internal", "is", "lock",
   "long", "namespace", "new", "null", "object", "operator", "out", "override", "params",
   "private", "protected", "public", "readonly", "ref", "return", "sbyte", "sealed",
   "short", "sizeof", "stackalloc", "static", "string", "struct", "switch", "this", "throw",
   "true", "try", "typeof", "uint", "ulong", "unchecked", "unsafe", "ushort", "using",
   "virtual", "void", "volatile", "while"]

/-- The name as managed code spells it. -/
def managedIdentifier (name : String) : Except ExportError String :=
  if !isIdentifier name then .error (.invalidIdentifier name)
  else .ok (if managedKeywords.contains name then "@" ++ name else name)

/-- A name with its length in bytes in front. -/
def sized (name : String) : String := toString name.utf8ByteSize ++ name

/-- The symbol of a function's trampoline. The lengths tell where one name ends and the next begins. -/
def trampolineSymbol (id : FunctionId) : String := "SBFI_" ++ sized id.type ++ "_" ++ sized id.function

/-- What introduces a trampoline's symbol in a wrapper. -/
def directMark : List Char := "Invocable.Direct(\"".toList

/-- The symbols that a wrapper's text binds directly: what stands between each mark and the next double quote. -/
def referencedSymbols : List Char → List String
  | [] => []
  | c :: cs =>
    if directMark.isPrefixOf (c :: cs) then
      String.ofList (((c :: cs).drop directMark.length).takeWhile (· ≠ '"')) :: referencedSymbols cs
    else referencedSymbols cs

end EngineBridge
