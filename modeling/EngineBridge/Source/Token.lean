import EngineBridge.Text.Parser
import EngineBridge.Text.Identifier
import EngineBridge.Text.Digits

/-! The words of a source file: blanks and comments, symbols, identifiers, numbers. A word is read together
    with the blanks around it. -/

namespace EngineBridge.Source
open EngineBridge.Parser

/-- The rest of a line, without its end. -/
def restOfLine : Parser (List Char) := run (· != '\n')

/-- A comment up to the end of the line, or one that is closed. -/
def comment : Parser Unit :=
  (do text "//"; let _ ← restOfLine) <|>
  (do text "/*"; let _ ← many (do notHere (text "*/"); satisfy fun _ => true); text "*/")

/-- A line for the preprocessor. -/
def directive : Parser Unit := do
  text "#"
  let _ ← restOfLine

/-- The white space of a source file. -/
def isBlank (c : Char) : Bool := c == ' ' || c == '\t' || c == '\r' || c == '\n'

/-- Blanks, comments and preprocessor lines, as many as there are. -/
def trivia : Parser Unit := do
  let _ ← many (comment <|> directive <|> (do let _ ← satisfy isBlank))

/-- A value with trivia on both sides. -/
def padded {α : Type} (p : Parser α) : Parser α := do
  trivia
  let a ← p
  trivia
  return a

/-- A symbol with trivia on both sides. -/
def symbol (s : String) : Parser Unit := padded (text s)

/-- The characters of an identifier. -/
def word : Parser String := do
  let c ← satisfy isIdentifierStart
  let cs ← run isIdentifierPart
  return String.ofList (c :: cs)

/-- A whole identifier that is the given word. -/
def keyword (k : String) : Parser Unit := padded do
  let _ ← filtered word (· == k)

/-- An identifier. An `@` in front makes no difference. -/
def identifier : Parser String := padded do
  let _ ← optional (text "@")
  word

/-- Identifiers joined by points, without blanks between them. -/
def path : Parser (List String) := sepBy1 word (text ".")

/-- The last of the identifiers joined by points. -/
def lastOfPath : Parser String := do
  let p ← padded path
  return p.getLastD ""

/-- Digits without a zero in front: a zero stands alone. -/
def digits (isDigit : Char → Bool) : Parser (List Char) :=
  (do
    let c ← satisfy fun c => isDigit c && c != '0'
    let cs ← run isDigit
    return c :: cs) <|>
  (do text "0"; return ['0'])

/-- The integer, if it can be kept in 64 bits with a sign. -/
def inRange (n : Int) : Except String Int64 :=
  if n > Int64.maxValue.toInt then .error "number too large to fit in target type"
  else if n < Int64.minValue.toInt then .error "number too small to fit in target type"
  else .ok (Int64.ofInt n)

/-- The number after `0x`. -/
def hexLiteral : Parser Int64 := do
  text "0x" <|> text "0X"
  checked (digits isHexDigit) fun ds => inRange (numberOfDigits 16 ds)

/-- A number to the base ten, with a minus sign if it is negative. -/
def decimalLiteral : Parser Int64 :=
  checked (do
      let sign ← optional (text "-")
      let ds ← digits Char.isDigit
      return (sign.isSome, ds))
    fun (negative, ds) =>
      let n : Int := numberOfDigits 10 ds
      inRange (if negative then -n else n)

/-- An integer to the base sixteen or ten. -/
def integerLiteral : Parser Int64 := padded (hexLiteral <|> decimalLiteral)

end EngineBridge.Source
