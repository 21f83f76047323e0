import EngineBridge.Text.Digits

/-! Bytes as text: two digits to the base sixteen for each byte. -/

namespace EngineBridge

/-- Two digits for each byte, the higher one first. -/
def hexOfBytes (bytes : List UInt8) : String :=
  String.ofList (bytes.flatMap fun b => [Nat.digitChar (b.toNat / 16), Nat.digitChar (b.toNat % 16)])

/-- The bytes that pairs of digits stand for. -/
def bytesOfHexDigits : List Char → List UInt8
  | a :: b :: cs => UInt8.ofNat (digitValue a * 16 + digitValue b) :: bytesOfHexDigits cs
  | _ => []

/-- The bytes that a text of digits stands for. -/
def bytesOfHex (s : String) : List UInt8 := bytesOfHexDigits s.toList

end EngineBridge
