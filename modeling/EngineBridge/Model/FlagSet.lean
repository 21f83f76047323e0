import EngineBridge.Text.Blank
import EngineBridge.Text.Digits

/-! Sets of named flags. A set is kept as bits; the text of a set lists the names of its flags, and bits that
    belong to no name follow as one number. -/

namespace EngineBridge

/-- A set of flags, the first of the names being the lowest bit. Bits without a name are kept. -/
structure FlagSet (names : List String) where
  bits : UInt32
deriving DecidableEq, Repr

namespace FlagSet
variable {names : List String}

/-- The set without flags. -/
def empty : FlagSet names := ⟨0⟩

/-- The flag of the bit with the given number. -/
def single (index : Nat) : FlagSet names := ⟨UInt32.ofNat (Nat.pow 2 index)⟩

/-- The flags of both sets. -/
def union (a b : FlagSet names) : FlagSet names := ⟨a.bits ||| b.bits⟩

/-- All flags of `b` are in `a`. -/
def contains (a b : FlagSet names) : Bool := a.bits &&& b.bits == b.bits

/-- The sets share a flag. -/
def intersects (a b : FlagSet names) : Bool := a.bits &&& b.bits != 0

/-- The bits of the set that have no name. -/
def unnamed (a : FlagSet names) : Nat := a.bits.toNat / Nat.pow 2 names.length * Nat.pow 2 names.length

/-- What the text of the set lists. -/
def parts (a : FlagSet names) : List String :=
  ((names.zipIdx.filter fun n => a.bits.toNat.testBit n.2).map (·.1))
    ++ if a.unnamed = 0 then [] else ["0x" ++ hexDigits a.unnamed]

/-- The text of the set. -/
def render (a : FlagSet names) : String := String.intercalate " | " a.parts

/-- A number to the base sixteen that fits into 32 bits; a plus sign in front is allowed. -/
def hexNumber? (cs : List Char) : Option UInt32 :=
  let digits := match cs with
    | '+' :: ds => ds
    | ds => ds
  if digits.isEmpty || !digits.all isHexDigit then none
  else
    let n := numberOfDigits 16 digits
    if n < UInt32.size then some (UInt32.ofNat n) else none

/-- The set that one part of a text names. -/
def ofPart? (cs : List Char) : Option (FlagSet names) :=
  match cs with
  | '0' :: 'x' :: ds => (hexNumber? ds).map fun n => ⟨n⟩
  | cs => (names.findIdx? (· == String.ofList cs)).map single

/-- The set that a text lists. Blanks around the parts do not matter. -/
def parse? (s : String) : Option (FlagSet names) :=
  let cs := trimmed s.toList
  if cs.isEmpty then some empty
  else (splitOnChar '|' s.toList).foldlM (fun a part => (ofPart? (trimmed part)).map a.union) empty

end FlagSet
end EngineBridge
