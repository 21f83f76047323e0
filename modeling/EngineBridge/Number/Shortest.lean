import EngineBridge.Number.Binary

/-! Decimal texts of binary numbers: the fewest digits that read back to the number, and of those the nearest.

The decimals that read back are the ones between the halfway points to the neighbours of the number, the ends included
if its significand is even. For one digit, two digits and so on the two decimals around the number are tried. -/

namespace EngineBridge

/-- A decimal: digits times a power of ten. -/
structure Decimal where
  digits : Nat
  power : Int
deriving DecidableEq, Repr

namespace Decimal

/-- Zeros in front of the point that a power of ten adds. -/
def zeros (n : Nat) : List Char := List.replicate n '0'

/-- The digits without zeros at their end. -/
def withoutTrailingZeros (ds : List Char) : List Char := (ds.reverse.dropWhile (· == '0')).reverse

/-- The decimal without an exponent, and with a point only if something follows it. -/
def positional (d : Decimal) : List Char :=
  let ds := (toString d.digits).toList
  if 0 ≤ d.power then ds ++ zeros d.power.toNat
  else
    let places := (-d.power).toNat
    let ds := zeros (places + 1 - ds.length) ++ ds
    let whole := ds.take (ds.length - places)
    match withoutTrailingZeros (ds.drop (ds.length - places)) with
    | [] => whole
    | fraction => whole ++ '.' :: fraction

end Decimal

/-- A positive binary number between its neighbours. -/
structure Spaced where
  significand : Nat
  power : Int
  /-- The neighbour below is only half as far away as the one above. -/
  closeBelow : Bool
deriving DecidableEq, Repr

namespace Spaced

/-- A quarter of the last place, which all comparisons count in, as numerator and denominator. -/
def quarter (s : Spaced) : Nat × Nat := (Nat.pow 2 (s.power - 2).toNat, Nat.pow 2 (2 - s.power).toNat)

/-- A power of ten as numerator and denominator. -/
def tenPower (power : Int) : Nat × Nat := (Nat.pow 10 power.toNat, Nat.pow 10 (-power).toNat)

/-- That many quarters of the last place, in the unit in which `digits` times the power of ten is `scaledDigits`. -/
def scaled (s : Spaced) (power : Int) (quarters : Nat) : Nat := quarters * s.quarter.1 * (tenPower power).2

/-- Digits times the power of ten, in the same unit. -/
def scaledDigits (s : Spaced) (power : Int) (digits : Nat) : Nat := digits * (tenPower power).1 * s.quarter.2

/-- The decimal reads back to the number. -/
def readsBack (s : Spaced) (d : Decimal) : Bool :=
  let low := s.scaled d.power (4 * s.significand - (if s.closeBelow then 1 else 2))
  let high := s.scaled d.power (4 * s.significand + 2)
  let x := s.scaledDigits d.power d.digits
  if s.significand % 2 = 0 then low ≤ x && x ≤ high else low < x && x < high

/-- The digits of the number at a power of ten, rounded down. -/
def below (s : Spaced) (power : Int) : Nat :=
  s.scaled power (4 * s.significand) / s.scaledDigits power 1

/-- The number is nearer to the decimal above than to the one below, or as near. -/
def isNearAbove (s : Spaced) (power : Int) (digits : Nat) : Bool :=
  s.scaledDigits power (2 * digits + 1) ≤ 2 * s.scaled power (4 * s.significand)

/-- The decimal at a power of ten that reads back and is nearest to the number. -/
def at? (s : Spaced) (power : Int) : Option Decimal :=
  let digits := s.below power
  let down : Decimal := ⟨digits, power⟩
  let up : Decimal := ⟨digits + 1, power⟩
  match s.readsBack down, s.readsBack up with
  | true, true => some (if s.isNearAbove power digits then up else down)
  | true, false => some down
  | false, true => some up
  | false, false => none

/-- The power of ten just above the number. -/
def scale (s : Spaced) : Int :=
  let guess := (s.power + s.significand.log2) * 1233 / 4096
  let candidates := (List.range 4).map fun (i : Nat) => guess - 1 + (i : Int)
  (candidates.find? fun k => s.scaled k (4 * s.significand) < s.scaledDigits k 1).getD (guess + 3)

/-- The number itself as a decimal. -/
def exact (s : Spaced) : Decimal :=
  if 0 ≤ s.power then ⟨s.significand * Nat.pow 2 s.power.toNat, 0⟩
  else ⟨s.significand * Nat.pow 5 (-s.power).toNat, s.power⟩

/-- The most digits that can be needed. -/
def mostDigits : Nat := 17

/-- The fewest digits that read back. -/
def shortest (s : Spaced) : Decimal :=
  ((List.range mostDigits).findSome? fun (n : Nat) => s.at? (s.scale - (n + 1))).getD s.exact

end Spaced

namespace BinaryFormat

/-- The text of a number. -/
def text (f : BinaryFormat) (bits : Nat) : String :=
  let n := f.decode bits
  match n.magnitude with
  | .notNumber _ => "NaN"
  | magnitude =>
    (if n.negative then "-" else "") ++ match magnitude with
      | .finite 0 _ => "0"
      | .finite significand power =>
        let closeBelow := significand == Nat.pow 2 f.fractionBits && power != f.leastPower
        String.ofList (Spaced.shortest ⟨significand, power, closeBelow⟩).positional
      | _ => "inf"

end BinaryFormat
end EngineBridge
