import EngineBridge.Json.Basic
import EngineBridge.Text.Parser
import EngineBridge.Text.Digits

/-! Reading JSON. The reader checks the form of everything and keeps what it read; whether a string is text, and
    whether a number can be kept, is asked where the value is used. -/

namespace EngineBridge.Json
open EngineBridge.Parser

/-- The white space of JSON. -/
def isBlank (c : Char) : Bool := c == ' ' || c == '\t' || c == '\r' || c == '\n'

/-- White space, if there is any. -/
def blanks : Parser Unit := do
  let _ ← run isBlank

/-- A value with white space behind it. -/
def token {α : Type} (p : Parser α) : Parser α := do
  let a ← p
  blanks
  return a

/-- A word of JSON. -/
def word (s : String) : Parser Unit := token (text s)

/-- A digit to the base sixteen and its value. -/
def hexDigit : Parser Nat := do
  let c ← satisfy isHexDigit
  return digitValue c

/-- A piece of a string: a character, or a unit of sixteen bits. -/
inductive Piece
  | char (c : Char)
  | codeUnit (n : Nat)

/-- What an escape stands for, after its backslash. -/
def escape : Parser Piece :=
  (do text "\""; return .char '"') <|>
  (do text "\\"; return .char '\\') <|>
  (do text "/"; return .char '/') <|>
  (do text "b"; return .char (Char.ofNat 8)) <|>
  (do text "f"; return .char (Char.ofNat 12)) <|>
  (do text "n"; return .char '\n') <|>
  (do text "r"; return .char '\r') <|>
  (do text "t"; return .char '\t') <|>
  (do
    text "u"
    let a ← hexDigit
    let b ← hexDigit
    let c ← hexDigit
    let d ← hexDigit
    return .codeUnit (a * 4096 + b * 256 + c * 16 + d))

/-- A piece of a string as it is written. -/
def piece : Parser Piece :=
  (do let c ← satisfy fun c => 32 ≤ c.toNat && c != '"' && c != '\\'; return .char c) <|>
  (do text "\\"; escape)

/-- The first unit of a pair that spells one character. -/
def isHighSurrogate (n : Nat) : Bool := 0xD800 ≤ n && n < 0xDC00

/-- The second unit of a pair that spells one character. -/
def isLowSurrogate (n : Nat) : Bool := 0xDC00 ≤ n && n < 0xE000

/-- The characters that the pieces spell; nothing, if half of a pair stands alone. -/
def spell : List Piece → Option (List Char)
  | [] => some []
  | .char c :: ps => (spell ps).map (c :: ·)
  | .codeUnit n :: ps =>
    if isLowSurrogate n then none
    else if isHighSurrogate n then
      match ps with
      | .codeUnit m :: qs =>
        if isLowSurrogate m then
          (spell qs).map (Char.ofNat (0x10000 + (n - 0xD800) * 1024 + (m - 0xDC00)) :: ·)
        else none
      | _ => none
    else (spell ps).map (Char.ofNat n :: ·)

/-- A string. -/
def stringToken : Parser JsonText := token do
  text "\""
  let ps ← many piece
  text "\""
  return (spell ps).map String.ofList

/-- One digit or more. -/
def someDigits : Parser (List Char) := do
  let c ← satisfy Char.isDigit
  let cs ← run Char.isDigit
  return c :: cs

/-- A number. There is no zero in front of other digits. -/
def numberToken : Parser JsonNumber := token do
  let sign ← optional (text "-")
  let whole ← (do text "0"; return ['0']) <|> someDigits
  let fraction ← optional (text ".")
  let fraction ← match fraction with
    | some _ => do let ds ← someDigits; pure (some ds)
    | none => pure none
  let mark ← optional (text "e" <|> text "E")
  let exponent ← match mark with
    | some _ => do
      let sign ← optional ((do text "-"; return true) <|> (do text "+"; return false))
      let ds ← someDigits
      let n : Int := numberOfDigits 10 ds
      pure (some (if sign == some true then -n else n))
    | none => pure none
  return ⟨sign.isSome, whole, fraction, exponent⟩

/-- No comma, or a comma and what follows it. -/
def commaSeparated {α : Type} (p : Parser α) (closing : Parser Unit) : Parser (List α) :=
  (do closing; return []) <|>
  (do let as ← sepBy1 p (word ","); closing; return as)

/-- A value, given a parser for the values within. -/
def valueWith (value : Parser Json) : Parser Json := fun s =>
  match s.chars.head? with
  | some '"' => (do let t ← stringToken; return .string t : Parser Json) s
  | some '{' =>
    (do
      exactly ['{']
      blanks
      let fields ← commaSeparated (do
          let k ← stringToken
          word ":"
          let v ← value
          return (k, v))
        (token (exactly ['}']))
      return .object fields : Parser Json) s
  | some '[' =>
    (do
      word "["
      let items ← commaSeparated value (word "]")
      return .array items : Parser Json) s
  | some 't' => (do word "true"; return .bool true : Parser Json) s
  | some 'f' => (do word "false"; return .bool false : Parser Json) s
  | some 'n' => (do word "null"; return .null : Parser Json) s
  | _ => (do let n ← numberToken; return .number n : Parser Json) s

/-- A value with the white space around it. -/
def valueText : Parser Json := do
  blanks
  recursive valueWith

/-- The value that a whole text spells. -/
def parse? (s : String) : Option Json := (parseAll valueText s.toList).toOption

end EngineBridge.Json
