import EngineBridge.Text.Parser
import EngineBridge.Text.Digits

/-! The notation of manifests: texts, numbers, lists, maps, and groups between parentheses that may have a name in front
and whose parts may have names of their own. Comments may be nested. -/

namespace EngineBridge.Notation
open EngineBridge.Parser

/-- What a number spells. -/
inductive Literal
  /-- An integer with its sign. -/
  | integer (n : Int)
  | decimal
deriving DecidableEq, Repr

/-- A value of the notation. -/
inductive Datum
  | text (s : String)
  | number (n : Literal)
  | character
  /-- A name that stands alone. -/
  | word (name : String)
  | list (items : List Datum)
  | map (entries : List (Datum × Datum))
  /-- Parts without names, between parentheses. -/
  | tuple (name : Option String) (items : List Datum)
  /-- Parts with names, between parentheses. -/
  | fields (name : Option String) (parts : List (String × Datum))
deriving Repr, Inhabited

/-! ### Words and blanks -/

def isBlank (c : Char) : Bool := c == ' ' || c == '\t' || c == '\n' || c == '\r'

/-- A comment between `/*` and `*/`, after its beginning; comments within it are closed first. -/
def blockRest : Parser Unit := recursive fun rest => do
  let _ ← run fun c => c != '/' && c != '*'
  (do text "/*"; rest; rest) <|> text "*/" <|> (do let _ ← satisfy fun _ => true; rest)

/-- A comment. -/
def comment : Parser Unit :=
  (do text "//"; let _ ← run (· != '\n')) <|> (do text "/*"; blockRest)

/-- Blanks and comments. -/
def blanks : Parser Unit := do
  let _ ← many (comment <|> (do let _ ← satisfy isBlank))

/-- A value with blanks behind it. -/
def token {α : Type} (p : Parser α) : Parser α := do
  let a ← p
  blanks
  return a

def symbol (s : String) : Parser Unit := token (text s)

def startsIdentifier (c : Char) : Bool := c.isAlpha || c == '_'

def inIdentifier (c : Char) : Bool := c.isAlphanum || c == '_'

/-- Characters that a name may have only if it is marked as raw. -/
def inRawIdentifier (c : Char) : Bool := inIdentifier c || c == '.' || c == '+' || c == '-'

/-- A name marked with `r#`. -/
def rawIdentifier : Parser String := do
  text "r#"
  let c ← satisfy inRawIdentifier
  let cs ← run inRawIdentifier
  return String.ofList (c :: cs)

/-- A name. No character that needs the mark may follow it. -/
def plainIdentifier : Parser String := do
  notHere (text "r\"" <|> text "r#")
  let c ← satisfy startsIdentifier
  let cs ← run inIdentifier
  notHere (do let _ ← satisfy inRawIdentifier)
  return String.ofList (c :: cs)

def identifier : Parser String := rawIdentifier <|> plainIdentifier

/-! ### Texts -/

/-- Two digits to the base sixteen. -/
def byteEscape : Parser Char := do
  let a ← satisfy isHexDigit
  let b ← satisfy isHexDigit
  return Char.ofNat (numberOfDigits 16 [a, b])

/-- One to six digits to the base sixteen between braces. -/
def scalarEscape : Parser Char := do
  exactly ['{']
  let digits ← run isHexDigit
  exactly ['}']
  let n := numberOfDigits 16 digits
  if digits.isEmpty || 6 < digits.length || !n.isValidChar then fail else return Char.ofNat n

/-- The characters that an escape of one letter stands for. -/
def letterEscapes : List (Char × Char) :=
  [('\'', '\''), ('"', '"'), ('\\', '\\'), ('n', '\n'), ('r', '\r'), ('t', '\t'), ('0', Char.ofNat 0)]

/-- What follows a backslash. -/
def escape : Parser Char :=
  (do text "x"; byteEscape) <|> (do text "u"; scalarEscape) <|>
  (do
    let c ← satisfy fun c => (letterEscapes.lookup c).isSome
    return (letterEscapes.lookup c).getD c)

/-- A text between double quotes. -/
def quotedText : Parser String := do
  text "\""
  let cs ← many ((do text "\\"; escape) <|> satisfy fun c => c != '"' && c != '\\')
  text "\""
  return String.ofList cs

/-- A text in which nothing is an escape; as many number signs follow its end as stand before its beginning. -/
def rawText : Parser String := do
  text "r"
  let marks ← run (· == '#')
  text "\""
  let ending := exactly ('"' :: marks)
  let cs ← many (do notHere ending; satisfy fun _ => true)
  ending
  return String.ofList cs

/-- A character between single quotes. -/
def characterLiteral : Parser Unit := do
  text "'"
  let _ ← (do text "\\"; escape) <|> satisfy fun c => c != '\'' && c != '\\'
  text "'"

/-! ### Numbers -/

def inInteger (c : Char) : Bool := isHexDigit c || c == '_'

def inDecimal (c : Char) : Bool :=
  c.isDigit || c == 'e' || c == 'E' || c == '.' || c == '+' || c == '-' || c == '_'

/-- The base that a number begins with. -/
def numberBase : Parser Nat :=
  (do text "0x"; return 16) <|> (do text "0b"; return 2) <|> (do text "0o"; return 8) <|> pure 10

/-- An integer to the base sixteen, ten, eight or two; underscores within it do not count. -/
def integerLiteral (negative : Bool) : Parser Literal := do
  let base ← numberBase
  let cs ← run inInteger
  let digits := cs.filter (· != '_')
  if cs.isEmpty || cs.head? == some '_' || !digits.all (digitValue · < base) then fail
  else
    let n : Int := numberOfDigits base digits
    return .integer (if negative then -n else n)

/-- One digit or more. -/
def someDigits : Parser Unit := do
  let _ ← satisfy Char.isDigit
  let _ ← run Char.isDigit

/-- A number with a point or an exponent. -/
def decimalForm : Parser Unit := do
  (do
    someDigits
    let _ ← optional (do text "."; let _ ← run Char.isDigit)) <|>
  (do text "."; someDigits)
  let _ ← optional do
    text "e" <|> text "E"
    let _ ← optional (text "+" <|> text "-")
    someDigits

/-- A number. It is a decimal one if characters follow that no integer has. -/
def numberLiteral : Parser Literal := do
  let sign ← optional ((do text "-"; return true) <|> (do text "+"; return false))
  fun s =>
    let decimals := s.chars.takeWhile inDecimal
    let integers := s.chars.takeWhile inInteger
    if integers.length < decimals.length then
      (do
        decimalForm
        notHere (do let _ ← satisfy inDecimal)
        return .decimal : Parser Literal) s
    else integerLiteral (sign == some true) s

/-! ### Values -/

/-- Values with commas between them; a comma may follow the last. -/
def commaSeparated {α : Type} (p : Parser α) (closing : String) : Parser (List α) := do
  let as ← sepEndBy p (symbol ",")
  symbol closing
  return as

/-- A name, a colon and a value. -/
def namedPart (value : Parser Datum) : Parser (String × Datum) := do
  let name ← token identifier
  symbol ":"
  let v ← value
  return (name, v)

/-- What stands between parentheses, from the opening one on. -/
def group (name : Option String) (value : Parser Datum) : Parser Datum := do
  symbol "("
  let first ← optional fun s =>
    match (do let _ ← token identifier; symbol ":" : Parser Unit) s with
    | ⟨some _, e⟩ => ⟨some ((), s), e⟩
    | ⟨none, e⟩ => ⟨none, e⟩
  match first with
  | some _ => do let parts ← commaSeparated (namedPart value) ")"; return .fields name parts
  | none => do let items ← commaSeparated value ")"; return .tuple name items

/-- A value, given a parser for the values within. -/
def datumWith (value : Parser Datum) : Parser Datum :=
  (do
    let name ← token identifier
    group (some name) value <|> pure (.word name)) <|>
  group none value <|>
  (do symbol "["; let items ← commaSeparated value "]"; return .list items) <|>
  (do
    token (exactly ['{'])
    let entries ← sepEndBy (do
        let k ← value
        symbol ":"
        let v ← value
        return (k, v))
      (symbol ",")
    token (exactly ['}'])
    return .map entries) <|>
  (do let t ← token (quotedText <|> rawText); return .text t) <|>
  (do token characterLiteral; return .character) <|>
  (do token (text "-inf"); return .number .decimal) <|>
  (do let n ← token numberLiteral; return .number n)

/-- A value with blanks behind it. -/
def datum : Parser Datum := recursive datumWith

/-! ### Whole texts -/

/-- What a text may switch on for itself. -/
inductive Extension
  | unwrapNewtypes
  | implicitSome
  | unwrapVariantNewtypes
deriving DecidableEq, Repr

/-- The extensions by their names. -/
def extensionNames : List (String × Extension) :=
  [("unwrap_newtypes", .unwrapNewtypes), ("implicit_some", .implicitSome),
   ("unwrap_variant_newtypes", .unwrapVariantNewtypes)]

/-- The name of an extension. -/
def extension : Parser Extension := do
  let name ← token identifier
  match extensionNames.lookup name with
  | some e => return e
  | none => fail

/-- Extensions switched on in front of a value. -/
def enabled : Parser (List Extension) := do
  symbol "#"
  symbol "!"
  symbol "["
  symbol "enable"
  symbol "("
  let es ← sepEndBy extension (symbol ",")
  if es.isEmpty then fail
  else
    symbol ")"
    symbol "]"
    return es

/-- A value and the extensions in front of it. -/
def document : Parser (List Extension × Datum) := do
  blanks
  let es ← many enabled
  let d ← datum
  return (es.flatten, d)

/-- The value that a whole text spells, and its extensions. -/
def parse? (s : String) : Option (List Extension × Datum) := (parseAll document s.toList).toOption

end EngineBridge.Notation
