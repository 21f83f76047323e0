/-! Numbers as bytes, the lowest byte first. -/

namespace EngineBridge

/-- The lowest bytes of a number. -/
def bytesOf : Nat → Nat → List UInt8
  | 0, _ => []
  | width + 1, n => UInt8.ofNat n :: bytesOf width (n / 256)

/-- The number that bytes stand for. -/
def numberOf : List UInt8 → Nat
  | [] => 0
  | b :: bs => b.toNat + 256 * numberOf bs

@[simp] theorem length_bytesOf (width n : Nat) : (bytesOf width n).length = width := by
  induction width generalizing n with
  | zero => rfl
  | succ width ih => simp [bytesOf, ih]

/-- How many numbers so many bytes tell apart. -/
def byteSpan (width : Nat) : Nat := Nat.pow 256 width

theorem byteSpan_succ (width : Nat) : byteSpan (width + 1) = 256 * byteSpan width := Nat.mul_comm _ _

theorem numberOf_bytesOf (width n : Nat) : numberOf (bytesOf width n) = n % byteSpan width := by
  induction width generalizing n with
  | zero => simp [bytesOf, numberOf, byteSpan, Nat.mod_one]
  | succ width ih =>
    rw [bytesOf, numberOf, ih, byteSpan_succ, Nat.mod_mul]
    simp

theorem numberOf_lt (bs : List UInt8) : numberOf bs < byteSpan bs.length := by
  induction bs with
  | nil => simp [numberOf, byteSpan]
  | cons b bs ih =>
    have := b.toNat_lt
    simp only [numberOf, List.length_cons, byteSpan_succ]
    omega

theorem bytesOf_numberOf (bs : List UInt8) : bytesOf bs.length (numberOf bs) = bs := by
  induction bs with
  | nil => rfl
  | cons b bs ih =>
    have := b.toNat_lt
    have hq : (b.toNat + 256 * numberOf bs) / 256 = numberOf bs := by omega
    have hb : UInt8.ofNat (b.toNat + 256 * numberOf bs) = b := by
      apply UInt8.toNat_inj.mp
      rw [UInt8.toNat_ofNat']
      omega
    simp only [List.length_cons, numberOf, bytesOf, hq, hb, ih]

end EngineBridge
