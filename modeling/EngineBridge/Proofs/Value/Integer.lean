import EngineBridge.Host.Value
import EngineBridge.Number.Bytes

/-! The bits of typed numbers. -/

namespace EngineBridge

theorem IntegerType.count_eq (t : IntegerType) : t.count = byteSpan t.bytes := by cases t <;> rfl

namespace TypedInteger

/-- The number whose bits are those of `n` is `n`, if the type has it. -/
theorem wrapped_emod {type : IntegerType} {n : Int} (h : type.holds n = true) :
    wrapped type (n % type.count).toNat = n := by
  cases type <;>
    simp [wrapped, IntegerType.holds, IntegerType.least, IntegerType.greatest, IntegerType.signed,
      IntegerType.count] at h ⊢
  all_goals try split
  all_goals omega

theorem ofBits_bits (i : TypedInteger) : ofBits i.type i.bits = i := by
  obtain ⟨type, n, hn⟩ := i
  have h : wrapped type (n % type.count).toNat = n := wrapped_emod hn
  simp only [ofBits, bits, h]

theorem bits_ofBits (type : IntegerType) (n : Nat) : (ofBits type n).bits = n % type.count := by
  show (wrapped type n % type.count).toNat = n % type.count
  cases type <;> simp [wrapped, IntegerType.signed, IntegerType.count]
  all_goals try split
  all_goals omega

theorem bits_lt (i : TypedInteger) : i.bits < byteSpan i.type.bytes := by
  rw [← IntegerType.count_eq, bits]
  have hpos : 0 < (i.type.count : Int) := by cases i.type <;> decide
  have := Int.emod_lt_of_pos i.value hpos
  omega

end TypedInteger
end EngineBridge
