/-! Digits and the numbers they spell. -/

namespace EngineBridge

/-- A digit to the base sixteen. -/
def isHexDigit (c : Char) : Bool :=
  c.isDigit || ('a' ≤ c && c ≤ 'f') || ('A' ≤ c && c ≤ 'F')

/-- The value of a digit to the base sixteen. -/
def digitValue (c : Char) : Nat :=
  if c.isDigit then c.toNat - '0'.toNat
  else if 'a' ≤ c then c.toNat - 'a'.toNat + 10
  else c.toNat - 'A'.toNat + 10

/-- The number that the digits spell to the given base. -/
def numberOfDigits (base : Nat) (digits : List Char) : Nat :=
  digits.foldl (fun n c => n * base + digitValue c) 0

/-- The number that a text spells, with a dash in front if it is negative. -/
def decimal? (s : String) : Option Int :=
  let number? (digits : List Char) : Option Nat :=
    if !digits.isEmpty && digits.all Char.isDigit then some (numberOfDigits 10 digits) else none
  match s.toList with
  | '-' :: digits => (number? digits).map fun n => -(n : Int)
  | digits => (number? digits).map Int.ofNat

/-- The digits of a number to the base sixteen, in lower case. -/
def hexDigits (n : Nat) : String := String.ofList (Nat.toDigits 16 n)

end EngineBridge
