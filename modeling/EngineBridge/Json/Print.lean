import EngineBridge.Json.Basic
import EngineBridge.Text.Visible

/-! Writing JSON, on one line or with one item to a line. Both quote a string in the same way: only what must be
    escaped is, with a letter where JSON has one. -/

namespace EngineBridge.Json

/-- Four digits to the base sixteen. -/
def fourDigits (n : Nat) : List Char :=
  [n / 4096 % 16, n / 256 % 16, n / 16 % 16, n % 16].map Nat.digitChar

/-- A character within a string. -/
def escaped (c : Char) : List Char :=
  match c with
  | '"' => ['\\', '"']
  | '\\' => ['\\', '\\']
  | '\n' => ['\\', 'n']
  | '\r' => ['\\', 'r']
  | '\t' => ['\\', 't']
  | c =>
    if c.toNat == 8 then ['\\', 'b']
    else if c.toNat == 12 then ['\\', 'f']
    else if c.toNat < 32 then '\\' :: 'u' :: fourDigits c.toNat
    else [c]

/-- A string with its quotes. -/
def quotedString (s : String) : List Char := '"' :: s.toList.flatMap escaped ++ ['"']

/-- The quoted text of a string; a text that is no text is written as the empty string. -/
def quotedText (s : JsonText) : List Char := quotedString (s.getD "")

/-- A number as it was written. -/
def numberText (n : JsonNumber) : List Char :=
  (if n.negative then ['-'] else []) ++ n.whole
    ++ (match n.fraction with | some ds => '.' :: ds | none => [])
    ++ (match n.exponent with | some e => 'e' :: (toString e).toList | none => [])

/-- A line break with two blanks for each level. -/
def lineBreak (level : Nat) : List Char := '\n' :: List.replicate (2 * level) ' '

mutual
/-- The value on one line, without blanks. -/
def compact : Json → List Char
  | .null => ['n', 'u', 'l', 'l']
  | .bool true => ['t', 'r', 'u', 'e']
  | .bool false => ['f', 'a', 'l', 's', 'e']
  | .number n => numberText n
  | .string s => quotedText s
  | .array items => '[' :: compactItems items
  | .object fields => '{' :: compactFields fields

/-- Items with commas between them, and the closing bracket. -/
def compactItems : List Json → List Char
  | [] => [']']
  | [v] => compact v ++ [']']
  | v :: w :: vs => compact v ++ ',' :: compactItems (w :: vs)

/-- Fields with commas between them, and the closing brace. -/
def compactFields : List (JsonText × Json) → List Char
  | [] => ['}']
  | [(k, v)] => quotedText k ++ ':' :: compact v ++ ['}']
  | (k, v) :: f :: fs => quotedText k ++ ':' :: compact v ++ ',' :: compactFields (f :: fs)
end

mutual
/-- The value with one item to a line, indented by two blanks for each level below the given one. -/
def pretty (level : Nat) : Json → List Char
  | .null => ['n', 'u', 'l', 'l']
  | .bool true => ['t', 'r', 'u', 'e']
  | .bool false => ['f', 'a', 'l', 's', 'e']
  | .number n => numberText n
  | .string s => quotedText s
  | .array [] => ['[', ']']
  | .array (v :: vs) => '[' :: prettyItems level (v :: vs)
  | .object [] => ['{', '}']
  | .object (f :: fs) => '{' :: prettyFields level (f :: fs)

/-- Items on lines of their own, and the closing bracket. -/
def prettyItems (level : Nat) : List Json → List Char
  | [] => lineBreak level ++ [']']
  | [v] => lineBreak (level + 1) ++ pretty (level + 1) v ++ lineBreak level ++ [']']
  | v :: w :: vs => lineBreak (level + 1) ++ pretty (level + 1) v ++ ',' :: prettyItems level (w :: vs)

/-- Fields on lines of their own, and the closing brace. -/
def prettyFields (level : Nat) : List (JsonText × Json) → List Char
  | [] => lineBreak level ++ ['}']
  | [(k, v)] =>
    lineBreak (level + 1) ++ quotedText k ++ ':' :: ' ' :: pretty (level + 1) v ++ lineBreak level ++ ['}']
  | (k, v) :: f :: fs =>
    lineBreak (level + 1) ++ quotedText k ++ ':' :: ' ' :: pretty (level + 1) v
      ++ ',' :: prettyFields level (f :: fs)
end

/-- The value on one line. -/
def toLine (j : Json) : String := String.ofList j.compact

/-- The value over several lines. -/
def toPretty (j : Json) : String := String.ofList (j.pretty 0)

end EngineBridge.Json
