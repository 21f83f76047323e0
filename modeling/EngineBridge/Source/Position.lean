import EngineBridge.Text.Parser
import EngineBridge.Text.Visible

/-! Places in a source text. A place is given by its offset in bytes, and shown as a line and a column, both
    counted from one; the column counts characters. -/

namespace EngineBridge.Source

/-- The bytes that the characters take. -/
def byteSize : List Char → Nat
  | [] => 0
  | c :: cs => c.utf8Size + byteSize cs

/-- The characters in front of a byte offset, unless it falls inside of a character. An offset behind the end
    stands for the end. -/
def charsBefore : List Char → Nat → Option (List Char)
  | [], _ => some []
  | _ :: _, 0 => some []
  | c :: cs, n => if c.utf8Size ≤ n then (charsBefore cs (n - c.utf8Size)).map (c :: ·) else none

/-- A line and a column. -/
structure Position where
  line : Nat
  column : Nat
deriving DecidableEq, Repr

/-- The place right behind some characters, if they begin at the given place. -/
def Position.advance (p : Position) (cs : List Char) : Position :=
  cs.foldl (fun p c => if c == '\n' then ⟨p.line + 1, 1⟩ else ⟨p.line, p.column + 1⟩) p

/-- The start of a text. -/
def Position.start : Position := ⟨1, 1⟩

/-- The line and column of a byte offset; nothing if it falls inside of a character. -/
def position? (source : String) (offset : Nat) : Option Position :=
  (charsBefore source.toList offset).map Position.start.advance

end EngineBridge.Source
