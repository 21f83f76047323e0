import EngineBridge.Pattern.Basic
import EngineBridge.Text.Parser
import EngineBridge.Text.Digits

/-! Reading patterns.

A pattern consists of characters, sets between brackets, escapes, anchors and groups; a bar separates alternatives, and
a mark behind a piece says how often it may come. Letters after `(?` switch ways of matching on and off. -/

namespace EngineBridge.Pattern
open EngineBridge.Parser

/-- Ways of matching. -/
structure Ways where
  ignoreCase : Bool
  /-- Line ends are ends of the text for `^` and `$`. -/
  byLine : Bool
  /-- A point stands for line ends, too. -/
  pointMatchesAll : Bool
  /-- Blanks and comments in the pattern do not count. -/
  spaced : Bool

/-- The ways of matching at the start of a pattern. -/
def Ways.usual : Ways := ⟨false, false, false, false⟩

/-! ### Escapes -/

/-- A set that an escape stands for. -/
def escapedSets : List (Char × CharSet) :=
  [('d', .digit), ('D', .compl .digit), ('s', .space), ('S', .compl .space), ('w', .word), ('W', .compl .word)]

/-- A character that an escape of one letter stands for. -/
def escapedLetters : List (Char × Char) :=
  [('n', '\n'), ('r', '\r'), ('t', '\t'), ('f', Char.ofNat 12), ('v', Char.ofNat 11), ('a', Char.ofNat 7)]

/-- A condition that an escape stands for. -/
def escapedAnchors : List (Char × Anchor) :=
  [('b', .wordBoundary), ('B', .notWordBoundary), ('A', .textStart), ('z', .textEnd), ('<', .wordStart),
   ('>', .wordEnd)]

/-- The character may be escaped to stand for itself. -/
def isEscapable (c : Char) : Bool := c.toNat < 128 && !c.isAlphanum && c != '<' && c != '>'

/-- The character with that number. -/
def charOfDigits (ds : List Char) : Parser Char :=
  let n := numberOfDigits 16 ds
  if !ds.isEmpty && n.isValidChar then pure (Char.ofNat n) else fail

/-- A number of digits to the base sixteen. -/
def hexDigitsOf : Nat → Parser (List Char)
  | 0 => pure []
  | n + 1 => do
    let c ← satisfy isHexDigit
    let cs ← hexDigitsOf n
    return c :: cs

/-- A character by its number: a fixed count of digits, or digits between braces. -/
def charByNumber (count : Nat) : Parser Char := do
  let ds ←
    (do exactly ['{']; let ds ← run isHexDigit; exactly ['}']; return ds) <|> hexDigitsOf count
  charOfDigits ds

/-- An escape that stands for a character, after the backslash. -/
def escapedChar : Parser Char :=
  satisfy isEscapable <|>
  (do text "x"; charByNumber 2) <|>
  (do text "u"; charByNumber 4) <|>
  (do text "U"; charByNumber 8) <|>
  (do
    let c ← satisfy fun c => (escapedLetters.lookup c).isSome
    return (escapedLetters.lookup c).getD c)

/-- An escape that stands for a set, after the backslash. -/
def escapedSet : Parser CharSet := do
  let c ← satisfy fun c => (escapedSets.lookup c).isSome
  return (escapedSets.lookup c).getD .none

/-! ### Sets -/

/-- The sets with a name of their own. -/
def namedSets : List (String × List (Char × Char)) :=
  let c := Char.ofNat
  [("alnum", [('0', '9'), ('A', 'Z'), ('a', 'z')]), ("alpha", [('A', 'Z'), ('a', 'z')]),
   ("ascii", [(c 0, c 127)]), ("blank", [('\t', '\t'), (' ', ' ')]), ("cntrl", [(c 0, c 31), (c 127, c 127)]),
   ("digit", [('0', '9')]), ("graph", [('!', '~')]), ("lower", [('a', 'z')]), ("print", [(' ', '~')]),
   ("punct", [('!', '/'), (':', '@'), ('[', c 96), ('{', '~')]),
   ("space", [('\t', '\t'), ('\n', '\n'), (c 11, c 11), (c 12, c 12), ('\r', '\r'), (' ', ' ')]),
   ("upper", [('A', 'Z')]), ("word", [('0', '9'), ('A', 'Z'), ('_', '_'), ('a', 'z')]),
   ("xdigit", [('0', '9'), ('A', 'F'), ('a', 'f')])]

/-- The union of some sets. -/
def unionOf (sets : List CharSet) : CharSet := sets.foldr CharSet.union .none

/-- A set by its name, between `[:` and `:]`. -/
def namedSet : Parser CharSet := do
  text "[:"
  let negated ← optional (text "^")
  let name ← run Char.isAlpha
  text ":]"
  match namedSets.lookup (String.ofList name) with
  | some ranges =>
    let set := unionOf (ranges.map fun r => CharSet.range r.1 r.2)
    return if negated.isSome then .compl set else set
  | none => fail

/-- A character that begins or ends a range. -/
def setChar : Parser Char :=
  (do text "\\"; escapedChar) <|>
  (do notHere (text "&&" <|> text "--" <|> text "~~"); satisfy fun c => c != ']' && c != '[' && c != '\\')

/-- A character, or a range of characters. -/
def setRange (lo : Parser Char) : Parser CharSet := do
  let a ← lo
  let hi ← optional do
    notHere (text "--")
    text "-"
    notHere (text "]")
    setChar
  match hi with
  | some b => if a ≤ b then return .range a b else fail
  | none =>
    notHere (do notHere (text "--" <|> text "-]"); text "-")
    return .single a

/-- A piece of a set, given a parser for the sets within. -/
def setPiece (set : Parser CharSet) : Parser CharSet :=
  namedSet <|> set <|> (do text "\\"; escapedSet) <|> setRange setChar

/-- How two sets are put together. -/
def setOperation : Parser (CharSet → CharSet → CharSet) :=
  (do text "&&"; return .inter) <|>
  (do text "--"; return fun s t => .inter s (.compl t)) <|>
  (do text "~~"; return fun s t => .inter (.union s t) (.compl (.inter s t)))

/-- Pieces one after the other. -/
def setUnion (set : Parser CharSet) : Parser CharSet := do
  let pieces ← many (setPiece set)
  return unionOf pieces

/-- A set between brackets. A closing bracket that comes first stands for itself. -/
def bracketSet : Parser CharSet := recursive fun set => do
  text "["
  let negated ← optional (text "^")
  let dashes ← many (do text "-"; return CharSet.single '-')
  let bracket ←
    if dashes.isEmpty then optional (setRange (do text "]"; return ']')) else pure none
  let pieces ← setUnion set
  let first := unionOf (dashes ++ bracket.toList ++ [pieces])
  let more ← many do
    let operation ← setOperation
    let operand ← setUnion set
    return (operation, operand)
  text "]"
  let whole := more.foldl (fun s m => m.1 s m.2) first
  return if negated.isSome then .compl whole else whole

/-! ### Pieces and repetitions -/

/-- A number to the base ten. -/
def count : Parser Nat := do
  let c ← satisfy Char.isDigit
  let cs ← run Char.isDigit
  return numberOfDigits 10 (c :: cs)

/-- How often a piece may come: the least number, and how many more. -/
def repetition : Parser (Nat × Option Nat) := do
  let r ←
    (do text "*"; return (0, none)) <|> (do text "+"; return (1, none)) <|> (do text "?"; return (0, some 1)) <|>
    (do
      exactly ['{']
      let least ← count
      let most ← optional do
        text ","
        optional count
      exactly ['}']
      match most with
      | none => return (least, some 0)
      | some none => return (least, none)
      | some (some m) => if least ≤ m then return (least, some (m - least)) else fail)
  let _ ← optional (text "?")
  return r

/-- The characters that mean something of their own. -/
def specialChars : List Char := ['\\', '.', '+', '*', '?', '(', ')', '|', '[', '^', '$', '{']

/-- What a point stands for. -/
def pointSet (w : Ways) : CharSet := if w.pointMatchesAll then .compl .none else .compl (.single '\n')

/-- A piece without groups. -/
def atom (w : Ways) : Parser Pattern :=
  (do text "."; return .one false (pointSet w)) <|>
  (do text "^"; return .anchor (if w.byLine then .lineStart else .textStart)) <|>
  (do text "$"; return .anchor (if w.byLine then .lineEnd else .textEnd)) <|>
  (do let s ← bracketSet; return .one w.ignoreCase s) <|>
  (do
    text "\\"
    (do let s ← escapedSet; return Pattern.one w.ignoreCase s) <|>
    (do
      let c ← satisfy fun c => (escapedAnchors.lookup c).isSome
      return .anchor ((escapedAnchors.lookup c).getD .textStart)) <|>
    (do let c ← escapedChar; return .one w.ignoreCase (.single c))) <|>
  (do let c ← satisfy (!specialChars.contains ·); return .one w.ignoreCase (.single c))

/-- The piece with the repetitions behind it. -/
def repeated (p : Pattern) : Parser Pattern := do
  let rs ← many repetition
  return rs.foldl (fun p r => .rep p r.1 r.2) p

/-- Switches a way of matching. -/
def switchWay (on : Bool) (w : Ways) : Char → Option Ways
  | 'i' => some { w with ignoreCase := on }
  | 'm' => some { w with byLine := on }
  | 's' => some { w with pointMatchesAll := on }
  | 'x' => some { w with spaced := on }
  | 'U' | 'u' | 'R' => some w
  | _ => none

/-- The ways of matching after some letters; those behind a minus sign switch off. -/
def switchWays (w : Ways) (letters : List Char) : Option Ways :=
  let on := letters.takeWhile (· != '-')
  let off := (letters.dropWhile (· != '-')).drop 1
  if letters.isEmpty || (letters.contains '-' && off.isEmpty) then none
  else do
    let w ← on.foldlM (switchWay true) w
    off.foldlM (switchWay false) w

/-- A character of a group's name. -/
def inGroupName (c : Char) : Bool := isWordChar c || c == '.' || c == '[' || c == ']'

/-- The name of a group. -/
def groupName : Parser Unit := do
  let _ ← satisfy fun c => isWordChar c && !isDigitChar c
  let _ ← run inGroupName
  text ">"

/-- What begins a group: whether ways are switched for what follows it, and the ways within. -/
def groupHead (w : Ways) : Parser (Bool × Ways) := do
  text "("
  (do
    text "?"
    (do (text "P<" <|> text "<"); groupName; return (false, w)) <|>
    (do text ":"; return (false, w)) <|>
    (do
      let letters ← run fun c => c.isAlpha || c == '-'
      match switchWays w letters with
      | none => fail
      | some w => (do text ")"; return (true, w)) <|> (do text ":"; return (false, w)))) <|>
  (do notHere (text "?"); return (false, w))

/-- A comment, or a blank, that does not count. -/
def spacing : Parser Unit :=
  (do text "#"; let _ ← run (· != '\n')) <|> (do let _ ← satisfy isWhiteSpace)

/-- Alternatives up to the end of a group or text, given those that were read, and the pieces of the last one. -/
def alternatives : Nat → Ways → List Pattern → List Pattern → Parser Pattern
  | 0, _, _, _ => fail
  | fuel + 1, w, done, pieces => fun s =>
    let all := (pieces.foldl (fun q p => match q with | .empty => p | q => .seq p q) .empty) :: done
    match s.chars.head? with
    | none | some ')' => (pure (all.tail.foldl (fun q p => .alt p q) (all.headD .empty)) : Parser Pattern) s
    | some '|' => (do text "|"; alternatives fuel w all [] : Parser Pattern) s
    | some '(' =>
      (do
        let (switched, inner) ← groupHead w
        if switched then alternatives fuel inner done pieces
        else
          let p ← alternatives fuel inner [] []
          text ")"
          let p ← repeated p
          alternatives fuel w done (p :: pieces) : Parser Pattern) s
    | some c =>
      if w.spaced && (c == '#' || isWhiteSpace c) then
        (do spacing; alternatives fuel w done pieces : Parser Pattern) s
      else
        (do
          let p ← atom w
          let p ← repeated p
          alternatives fuel w done (p :: pieces) : Parser Pattern) s

/-- The pattern that a text spells. -/
def parse? (s : String) : Option Pattern :=
  let cs := s.toList
  (parseAll (alternatives (cs.length + 1) .usual [] []) cs).toOption

end EngineBridge.Pattern
