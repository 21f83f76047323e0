import EngineBridge.Text.Blank
import EngineBridge.Text.WordChars

/-! Patterns that a text is searched for. A pattern is matched by following all its ways at once: from a spot in the
text it leads to a list of spots. -/

namespace EngineBridge

/-- A set of characters. -/
inductive CharSet
  | range (lo hi : Char)
  | digit
  | space
  | word
  | none
  | compl (s : CharSet)
  | union (s t : CharSet)
  | inter (s t : CharSet)
deriving Repr, Inhabited

/-- The letter in the other case, for letters of ASCII and Latin 1. -/
def swapCase (c : Char) : Char :=
  let n := c.toNat
  if (0x41 ≤ n && n ≤ 0x5A) || (0xC0 ≤ n && n ≤ 0xDE && n != 0xD7) then Char.ofNat (n + 32)
  else if (0x61 ≤ n && n ≤ 0x7A) || (0xE0 ≤ n && n ≤ 0xFE && n != 0xF7) then Char.ofNat (n - 32)
  else c

namespace CharSet

/-- The character is in the set; if case is ignored, also a character whose other case is. -/
def contains (ignoreCase : Bool) (c : Char) : CharSet → Bool
  | range lo hi =>
    (lo ≤ c && c ≤ hi) || (ignoreCase && lo ≤ swapCase c && swapCase c ≤ hi)
  | digit => isDigitChar c
  | space => isWhiteSpace c
  | word => isWordChar c
  | none => false
  | compl s => !contains ignoreCase c s
  | union s t => contains ignoreCase c s || contains ignoreCase c t
  | inter s t => contains ignoreCase c s && contains ignoreCase c t

/-- A single character. -/
def single (c : Char) : CharSet := range c c

end CharSet

/-- A condition on a spot. -/
inductive Anchor
  | textStart
  | textEnd
  | lineStart
  | lineEnd
  | wordBoundary
  | notWordBoundary
  | wordStart
  | wordEnd
deriving DecidableEq, Repr

/-- What a text is searched for. -/
inductive Pattern
  | empty
  | one (ignoreCase : Bool) (set : CharSet)
  | anchor (a : Anchor)
  | seq (p q : Pattern)
  | alt (p q : Pattern)
  /-- From `least` times to `least + more` times, or any number of times more. -/
  | rep (p : Pattern) (least : Nat) (more : Option Nat)
deriving Repr, Inhabited

/-- A spot in a text: the character in front of it, and what follows. -/
structure Spot where
  before : Option Char
  rest : List Char
deriving DecidableEq, Repr

namespace Spot

/-- The character in front, or behind, belongs to a word. -/
def isWord (c : Option Char) : Bool := c.any isWordChar

/-- The condition holds at the spot. -/
def satisfies (s : Spot) : Anchor → Bool
  | .textStart => s.before.isNone
  | .textEnd => s.rest.isEmpty
  | .lineStart => s.before.all (· == '\n')
  | .lineEnd => s.rest.head?.all (· == '\n')
  | .wordBoundary => isWord s.before != isWord s.rest.head?
  | .notWordBoundary => isWord s.before == isWord s.rest.head?
  | .wordStart => !isWord s.before && isWord s.rest.head?
  | .wordEnd => isWord s.before && !isWord s.rest.head?

/-- The spots of a text, from a spot on. -/
def onward (before : Option Char) : List Char → List Spot
  | [] => [⟨before, []⟩]
  | c :: cs => ⟨before, c :: cs⟩ :: onward (some c) cs

end Spot

/-- The spots reached by a step taken any number of times, at most `fuel` times. -/
def closure (step : Spot → List Spot) : Nat → List Spot → List Spot → List Spot
  | 0, seen, _ => seen
  | fuel + 1, seen, frontier =>
    let next := (frontier.flatMap step).eraseDups.filter (!seen.contains ·)
    if next.isEmpty then seen else closure step fuel (seen ++ next) next

/-- The spots reached by a step taken exactly `n` times. -/
def times (step : Spot → List Spot) : Nat → List Spot → List Spot
  | 0, spots => spots
  | n + 1, spots => times step n (spots.flatMap step).eraseDups

namespace Pattern

/-- The spots that the pattern leads to. -/
def ends : Pattern → Spot → List Spot
  | .empty, s => [s]
  | .one ignoreCase set, s =>
    match s.rest with
    | [] => []
    | c :: cs => if set.contains ignoreCase c then [⟨some c, cs⟩] else []
  | .anchor a, s => if s.satisfies a then [s] else []
  | .seq p q, s => ((ends p s).flatMap (ends q)).eraseDups
  | .alt p q, s => (ends p s ++ ends q s).eraseDups
  | .rep p least more, s =>
    let start := times (ends p) least [s]
    closure (ends p) (more.getD (s.rest.length + 1)) start start

/-- The pattern leads somewhere from a spot of the text. -/
def isFoundIn (p : Pattern) (text : String) : Bool :=
  (Spot.onward none text.toList).any fun s => !(p.ends s).isEmpty

end Pattern
end EngineBridge
