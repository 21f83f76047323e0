/-! Binary floating point numbers as bits.

A format keeps a sign, an exponent and a fraction. The bits of a magnitude grow with it, from zero over the numbers
below the least exponent to infinity, so that rounding up into the next exponent needs no case of its own. -/

namespace EngineBridge

/-- A binary format: how many bits its fraction and its exponent have. -/
structure BinaryFormat where
  fractionBits : Nat
  exponentBits : Nat
deriving DecidableEq, Repr

namespace BinaryFormat

/-- Numbers of 32 bits. -/
def single : BinaryFormat := ⟨23, 8⟩

/-- Numbers of 64 bits. -/
def double : BinaryFormat := ⟨52, 11⟩

/-- The bit of the sign. -/
def signBit (f : BinaryFormat) : Nat := Nat.pow 2 (f.fractionBits + f.exponentBits)

/-- The bits of infinity. -/
def infinity (f : BinaryFormat) : Nat := (Nat.pow 2 f.exponentBits - 1) * Nat.pow 2 f.fractionBits

/-- The bit that marks a quiet "not a number". -/
def quietBit (f : BinaryFormat) : Nat := Nat.pow 2 (f.fractionBits - 1)

/-- The power of two of the last place of the smallest numbers. -/
def leastPower (f : BinaryFormat) : Int := 2 - Nat.pow 2 (f.exponentBits - 1) - f.fractionBits

end BinaryFormat

/-- What the bits of a number say about its magnitude. -/
inductive Magnitude
  /-- A significand times a power of two. -/
  | finite (significand : Nat) (power : Int)
  | infinite
  | notNumber (payload : Nat)
deriving DecidableEq, Repr

/-- A sign and a magnitude. -/
structure BinaryNumber where
  negative : Bool
  magnitude : Magnitude
deriving DecidableEq, Repr

namespace BinaryFormat

/-- What bits without a sign stand for. -/
def magnitudeOf (f : BinaryFormat) (bits : Nat) : Magnitude :=
  let exponent := bits / Nat.pow 2 f.fractionBits
  let fraction := bits % Nat.pow 2 f.fractionBits
  if f.infinity < bits then .notNumber fraction
  else if bits = f.infinity then .infinite
  else if exponent = 0 then .finite fraction f.leastPower
  else .finite (fraction + Nat.pow 2 f.fractionBits) (f.leastPower + (exponent - 1))

/-- What bits stand for. -/
def decode (f : BinaryFormat) (bits : Nat) : BinaryNumber :=
  ⟨f.signBit ≤ bits, f.magnitudeOf (bits % f.signBit)⟩

/-- A number shifted to the right, rounded to nearest, and to the even one of two that are as near. -/
def roundedShift (n shift : Nat) : Nat :=
  let unit := Nat.pow 2 shift
  let q := n / unit
  let r := n % unit
  if unit < 2 * r || (2 * r == unit && q % 2 == 1) then q + 1 else q

/-- The bits of the number nearest to a magnitude. -/
def nearest (f : BinaryFormat) (significand : Nat) (power : Int) : Nat :=
  if significand = 0 then 0
  else
    let last := max (power + significand.log2 - f.fractionBits) f.leastPower
    let places :=
      if last ≤ power then significand * Nat.pow 2 (power - last).toNat
      else roundedShift significand (last - power).toNat
    min ((last - f.leastPower).toNat * Nat.pow 2 f.fractionBits + places) f.infinity

/-- The bits of a "not a number" whose payload comes from a format with another fraction. -/
def notNumber (f : BinaryFormat) (payload fractionBits : Nat) : Nat :=
  let moved := payload * Nat.pow 2 f.fractionBits / Nat.pow 2 fractionBits
  f.infinity + (moved ||| f.quietBit)

/-- The bits in one format of a number in another. -/
def convert (source target : BinaryFormat) (bits : Nat) : Nat :=
  let n := source.decode bits
  (if n.negative then target.signBit else 0) + match n.magnitude with
    | .finite significand power => target.nearest significand power
    | .infinite => target.infinity
    | .notNumber payload => target.notNumber payload source.fractionBits

end BinaryFormat

/-- A number of 32 bits as one of 64 bits. -/
def widened (bits : UInt32) : UInt64 := UInt64.ofNat (BinaryFormat.convert .single .double bits.toNat)

/-- The number of 32 bits that is nearest to one of 64 bits. -/
def narrowed (bits : UInt64) : UInt32 := UInt32.ofNat (BinaryFormat.convert .double .single bits.toNat)

end EngineBridge
