import EngineBridge.Number.Binary
import Mathlib.Data.Nat.Log
import Mathlib.Tactic.Ring

/-! Numbers that go into a wider format and back.

The wider format has room for every place of a number of the narrower one, and exponents beyond its least. So a finite
number is widened exactly, only written with more places, and narrowing drops nothing but these. A "not a number" stays
one, although its payload may change. -/

namespace EngineBridge
namespace BinaryFormat

/-- The bits stand for no number. -/
def IsNotNumber (f : BinaryFormat) (bits : Nat) : Prop := f.infinity < bits % f.signBit

/-- The significand and the power are those that bits of the format are decoded to. -/
structure Canonical (f : BinaryFormat) (significand : Nat) (power : Int) : Prop where
  least_le : f.leastPower ≤ power
  lt : significand < 2 ^ (f.fractionBits + 1)
  le : f.leastPower < power → 2 ^ f.fractionBits ≤ significand

/-- The bits of a magnitude that was decoded from a format whose fraction has so many bits. -/
def bitsFor (f : BinaryFormat) (fractionBits : Nat) : Magnitude → Nat
  | .finite significand power => f.nearest significand power
  | .infinite => f.infinity
  | .notNumber payload => f.notNumber payload fractionBits

theorem magnitudeOf_eq (f : BinaryFormat) (bits : Nat) : f.magnitudeOf bits =
    if f.infinity < bits then .notNumber (bits % 2 ^ f.fractionBits)
    else if bits = f.infinity then .infinite
    else if bits / 2 ^ f.fractionBits = 0 then .finite (bits % 2 ^ f.fractionBits) f.leastPower
    else .finite (bits % 2 ^ f.fractionBits + 2 ^ f.fractionBits)
      (f.leastPower + ((bits / 2 ^ f.fractionBits : Nat) - 1)) := rfl

theorem convert_eq (source target : BinaryFormat) (bits : Nat) :
    convert source target bits = (if source.signBit ≤ bits then target.signBit else 0) +
      target.bitsFor source.fractionBits (source.magnitudeOf (bits % source.signBit)) := by
  unfold convert decode bitsFor
  cases source.magnitudeOf (bits % source.signBit) <;> simp

section
variable {f : BinaryFormat} {bits significand shift : Nat} {power : Int}

theorem log2_shifted (h : significand ≠ 0) : (significand * 2 ^ shift).log2 = significand.log2 + shift := by
  have hne : significand * 2 ^ shift ≠ 0 := Nat.mul_ne_zero h (Nat.two_pow_pos shift).ne'
  rw [Nat.log2_eq_iff hne]
  obtain ⟨hle, hlt⟩ := (Nat.log2_eq_iff h).mp rfl
  refine ⟨?_, ?_⟩
  · rw [Nat.pow_add]
    exact Nat.mul_le_mul_right _ hle
  · rw [show significand.log2 + shift + 1 = significand.log2 + 1 + shift by omega, Nat.pow_add]
    exact Nat.mul_lt_mul_of_pos_right hlt (Nat.two_pow_pos shift)

/-- Places that are all zero are dropped without rounding. -/
theorem roundedShift_exact : roundedShift (significand * 2 ^ shift) shift = significand := by
  have hpos := Nat.two_pow_pos shift
  unfold roundedShift
  simp [Nat.mul_div_cancel _ hpos, hpos.ne]

theorem nearest_zero : f.nearest 0 power = 0 := if_pos rfl

/-- The last place of a number of the format is where it was decoded to. -/
theorem Canonical.lastPlace (h : f.Canonical significand power) (hne : significand ≠ 0) :
    max (power + significand.log2 - f.fractionBits) f.leastPower = power := by
  have hleast := h.least_le
  have hlog : significand.log2 < f.fractionBits + 1 := (Nat.log2_lt hne).mpr h.lt
  rcases hleast.eq_or_lt with heq | hlt
  · omega
  · have hge : f.fractionBits ≤ significand.log2 := (Nat.le_log2 hne).mpr (h.le hlt)
    omega

/-- A number of the format keeps its bits, with however many zeros behind its last place it is written. -/
theorem Canonical.nearest_shifted (h : f.Canonical significand power) (hne : significand ≠ 0) :
    f.nearest (significand * 2 ^ shift) (power - shift) =
      min ((power - f.leastPower).toNat * 2 ^ f.fractionBits + significand) f.infinity := by
  have hne' : significand * 2 ^ shift ≠ 0 := Nat.mul_ne_zero hne (Nat.two_pow_pos shift).ne'
  have hlast : max (power - shift + (significand * 2 ^ shift).log2 - f.fractionBits) f.leastPower = power := by
    rw [log2_shifted hne]
    refine Eq.trans (congrArg (max · f.leastPower) ?_) (h.lastPlace hne)
    push_cast
    ring
  unfold nearest
  rw [if_neg hne']
  dsimp only
  rw [hlast]
  split
  · next hle =>
    obtain rfl : shift = 0 := by omega
    simp
  · rw [show (power - (power - shift)).toNat = shift by omega, roundedShift_exact]
    rfl

/-- What the bits of a finite number are decoded to. -/
theorem canonical_of_magnitudeOf (h : f.magnitudeOf bits = .finite significand power) :
    f.Canonical significand power ∧ bits = (power - f.leastPower).toNat * 2 ^ f.fractionBits + significand := by
  have hpos := Nat.two_pow_pos f.fractionBits
  have hsplit := Nat.div_add_mod bits (2 ^ f.fractionBits)
  have hmod := Nat.mod_lt bits hpos
  have hsucc : 2 ^ (f.fractionBits + 1) = 2 ^ f.fractionBits * 2 := Nat.pow_succ ..
  rw [magnitudeOf_eq] at h
  split at h
  · cases h
  split at h
  · cases h
  split at h
  · next hzero =>
    cases h
    refine ⟨⟨le_refl _, by omega, fun hlt => absurd hlt (lt_irrefl _)⟩, ?_⟩
    rw [sub_self, Int.toNat_zero, Nat.zero_mul, Nat.zero_add]
    rw [hzero] at hsplit
    omega
  · next hexponent =>
    cases h
    obtain ⟨e, he⟩ := Nat.exists_eq_succ_of_ne_zero hexponent
    rw [he] at hsplit ⊢
    refine ⟨⟨by omega, by omega, fun _ => by omega⟩, ?_⟩
    rw [show (f.leastPower + (((e.succ : Nat) : Int) - 1) - f.leastPower).toNat = e by omega]
    rw [Nat.succ_eq_add_one, Nat.mul_add, Nat.mul_one, Nat.mul_comm] at hsplit
    omega

end

/-! ### Widening -/

/-- A number that has a normal place in a format is written there without loss. -/
theorem magnitudeOf_nearest {f : BinaryFormat} {significand : Nat} {power : Int} (hne : significand ≠ 0)
    (hlog : significand.log2 ≤ f.fractionBits)
    (hleast : f.leastPower ≤ power + significand.log2 - f.fractionBits)
    (hlimit : (power + significand.log2 - f.fractionBits - f.leastPower).toNat * 2 ^ f.fractionBits +
      2 ^ (f.fractionBits + 1) ≤ f.infinity) :
    f.nearest significand power < f.infinity ∧ f.magnitudeOf (f.nearest significand power) =
      .finite (significand * 2 ^ (f.fractionBits - significand.log2)) (power - (f.fractionBits - significand.log2 : Nat)) := by
  have hpos := Nat.two_pow_pos f.fractionBits
  have hsucc : 2 ^ (f.fractionBits + 1) = 2 ^ f.fractionBits * 2 := Nat.pow_succ ..
  set e := (power + significand.log2 - f.fractionBits - f.leastPower).toNat with he
  set t := significand * 2 ^ (f.fractionBits - significand.log2) with ht
  -- The places are moved up until the first stands where the format keeps it out of the fraction.
  obtain ⟨hlow, hhigh⟩ : 2 ^ f.fractionBits ≤ t ∧ t < 2 ^ (f.fractionBits + 1) := by
    have htne : t ≠ 0 := Nat.mul_ne_zero hne (Nat.two_pow_pos _).ne'
    rw [← Nat.log2_eq_iff htne, ht, log2_shifted hne]
    omega
  have hnearest : f.nearest significand power = e * 2 ^ f.fractionBits + t := by
    unfold nearest
    rw [if_neg hne]
    dsimp only
    rw [max_eq_left hleast, if_pos (by omega),
      show (power - (power + significand.log2 - f.fractionBits)).toNat = f.fractionBits - significand.log2 by omega]
    refine (min_eq_left ?_).trans rfl
    show e * 2 ^ f.fractionBits + t ≤ _
    omega
  have hlt : e * 2 ^ f.fractionBits + t < f.infinity := by omega
  rw [hnearest]
  refine ⟨hlt, ?_⟩
  have hrest : t - 2 ^ f.fractionBits < 2 ^ f.fractionBits := by omega
  have hform : e * 2 ^ f.fractionBits + t = (t - 2 ^ f.fractionBits) + 2 ^ f.fractionBits * (e + 1) := by
    rw [Nat.mul_add, Nat.mul_one, Nat.mul_comm]
    omega
  have hdiv : (e * 2 ^ f.fractionBits + t) / 2 ^ f.fractionBits = e + 1 := by
    rw [hform, Nat.add_mul_div_left _ _ hpos, Nat.div_eq_of_lt hrest, Nat.zero_add]
  have hmod : (e * 2 ^ f.fractionBits + t) % 2 ^ f.fractionBits = t - 2 ^ f.fractionBits := by
    rw [hform, Nat.add_mul_mod_self_left, Nat.mod_eq_of_lt hrest]
  rw [magnitudeOf_eq, hdiv, hmod, if_neg (by omega), if_neg (by omega), if_neg (by omega)]
  congr 1
  · omega
  · push_cast
    omega

/-- What is no number in one format is none in another. -/
theorem notNumber_bounds (f : BinaryFormat) {payload fractionBits : Nat} (hf : 0 < f.fractionBits)
    (h : payload < 2 ^ fractionBits) :
    f.infinity < f.notNumber payload fractionBits ∧ f.notNumber payload fractionBits < f.infinity + 2 ^ f.fractionBits := by
  have hmoved : payload * 2 ^ f.fractionBits / 2 ^ fractionBits < 2 ^ f.fractionBits := by
    rw [Nat.div_lt_iff_lt_mul (Nat.two_pow_pos _), Nat.mul_comm]
    exact Nat.mul_lt_mul_of_pos_left h (Nat.two_pow_pos _)
  have hquiet : (2 : Nat) ^ (f.fractionBits - 1) < 2 ^ f.fractionBits := Nat.pow_lt_pow_right (by decide) (by omega)
  have hor := Nat.or_lt_two_pow hmoved hquiet
  have hle : 2 ^ (f.fractionBits - 1) ≤ payload * 2 ^ f.fractionBits / 2 ^ fractionBits ||| 2 ^ (f.fractionBits - 1) :=
    Nat.right_le_or
  have hpos := Nat.two_pow_pos (f.fractionBits - 1)
  unfold notNumber quietBit
  simp only [show ∀ n, Nat.pow 2 n = 2 ^ n from fun _ => rfl]
  omega

/-! ### The two formats -/

section
variable {bits payload : Nat}

theorem eq_of_infinite {f : BinaryFormat} (h : f.magnitudeOf bits = .infinite) : bits = f.infinity := by
  rw [magnitudeOf_eq] at h
  grind

theorem notNumber_of_payload {f : BinaryFormat} (h : f.magnitudeOf bits = .notNumber payload) :
    f.infinity < bits ∧ payload < 2 ^ f.fractionBits := by
  have hlt := Nat.mod_lt bits (Nat.two_pow_pos f.fractionBits)
  rw [magnitudeOf_eq] at h
  grind

theorem payload_of_notNumber {f : BinaryFormat} (h : f.infinity < bits) :
    ∃ payload, f.magnitudeOf bits = .notNumber payload ∧ payload < 2 ^ f.fractionBits :=
  ⟨_, by rw [magnitudeOf_eq, if_pos h], Nat.mod_lt _ (Nat.two_pow_pos _)⟩

/-- A finite number of 32 bits is the same number in 64 bits. -/
theorem widened_finite {significand : Nat} {power : Int} (h : single.magnitudeOf bits = .finite significand power) :
    double.nearest significand power < double.signBit ∧
      single.bitsFor 52 (double.magnitudeOf (double.nearest significand power)) = bits := by
  obtain ⟨hcanonical, hbits⟩ := canonical_of_magnitudeOf h
  have hinfinity : double.infinity < double.signBit := by decide
  by_cases hne : significand = 0
  · subst hne
    -- Zero has the least power there is, so that no bit is set.
    have hpower : power = single.leastPower := by
      rcases hcanonical.least_le.eq_or_lt with heq | hlt
      · exact heq.symm
      · exact absurd (hcanonical.le hlt) (by decide)
    have hzero : bits = 0 := by simpa [hpower] using hbits
    subst hzero
    rw [nearest_zero]
    exact ⟨by decide, rfl⟩
  · have hle : bits < single.infinity := by
      rw [magnitudeOf_eq] at h
      grind
    -- The wide format has room for every significand and every power of the narrow one.
    have hlog : significand.log2 < 24 := (Nat.log2_lt hne).mpr hcanonical.lt
    have hleast : -149 ≤ power := hcanonical.least_le
    have hpower : power ≤ 105 := by
      have hbits' : bits = (power + 149).toNat * 8388608 + significand := hbits
      have hle' : bits < 2139095040 := hle
      omega
    have hwide : significand.log2 ≤ double.fractionBits := by
      show _ ≤ 52
      omega
    have hnormal : double.leastPower ≤ power + significand.log2 - double.fractionBits := by
      show (-1074 : Int) ≤ power + _ - (52 : Nat)
      omega
    have hlimit : (power + significand.log2 - double.fractionBits - double.leastPower).toNat * 2 ^ double.fractionBits +
        2 ^ (double.fractionBits + 1) ≤ double.infinity := by
      show (power + _ - (52 : Nat) - (-1074)).toNat * 4503599627370496 + 9007199254740992 ≤ 9218868437227405312
      omega
    obtain ⟨hlt, hmagnitude⟩ := magnitudeOf_nearest hne hwide hnormal hlimit
    rw [hmagnitude]
    refine ⟨lt_trans hlt hinfinity, ?_⟩
    exact (hcanonical.nearest_shifted hne).trans (hbits ▸ min_eq_left hle.le)

/-- A number of 32 bits without its sign comes back from 64 bits. -/
theorem bitsFor_bitsFor {wide : Nat} (hwide : double.bitsFor 23 (single.magnitudeOf bits) = wide) :
    wide < double.signBit ∧
      (single.bitsFor 52 (double.magnitudeOf wide) = bits ∨
        single.infinity < bits ∧ single.infinity < single.bitsFor 52 (double.magnitudeOf wide) ∧
          single.bitsFor 52 (double.magnitudeOf wide) < single.signBit) := by
  subst hwide
  cases hm : single.magnitudeOf bits with
  | finite significand power =>
    obtain ⟨hlt, hback⟩ := widened_finite hm
    exact ⟨hlt, .inl hback⟩
  | infinite =>
    rw [eq_of_infinite hm]
    exact ⟨by decide, .inl rfl⟩
  | notNumber payload =>
    obtain ⟨hlarge, hpayload⟩ := notNumber_of_payload hm
    obtain ⟨hlow, hhigh⟩ := notNumber_bounds double (by decide) hpayload
    obtain ⟨payload', hm', hpayload'⟩ := payload_of_notNumber hlow
    obtain ⟨hlow', hhigh'⟩ := notNumber_bounds single (by decide) hpayload'
    exact ⟨hhigh, .inr ⟨hlarge, hm' ▸ hlow', hm' ▸ hhigh'⟩⟩

end

end BinaryFormat

/-! ### The sign -/

section
variable {sign bits : Nat} {c : Prop} [Decidable c]

theorem mod_signed (h : bits < sign) : ((if c then sign else 0) + bits) % sign = bits := by
  split <;> simp [Nat.mod_eq_of_lt h]

theorem le_signed_iff (h : bits < sign) : sign ≤ (if c then sign else 0) + bits ↔ c := by
  split <;> simp_all

theorem signed_mod (h : bits < 2 * sign) : (if sign ≤ bits then sign else 0) + bits % sign = bits := by
  split
  · rw [Nat.mod_eq_sub_mod ‹_›, Nat.mod_eq_of_lt (by omega)]
    omega
  · rw [Nat.mod_eq_of_lt (by omega), Nat.zero_add]

theorem signed_lt (h : bits < sign) : (if c then sign else 0) + bits < 2 * sign := by
  split <;> omega

end

open BinaryFormat in
/-- A number of 32 bits comes back from 64 bits, and what is no number comes back as no number. -/
theorem narrowed_widened (bits : UInt32) :
    narrowed (widened bits) = bits ∨
      single.IsNotNumber bits.toNat ∧ single.IsNotNumber (narrowed (widened bits)).toNat := by
  obtain ⟨wide, hwide⟩ : ∃ wide, double.bitsFor 23 (single.magnitudeOf (bits.toNat % single.signBit)) = wide := ⟨_, rfl⟩
  obtain ⟨hlt, hback⟩ := bitsFor_bitsFor hwide
  obtain ⟨narrow, hnarrow⟩ : ∃ narrow, single.bitsFor 52 (double.magnitudeOf wide) = narrow := ⟨_, rfl⟩
  rw [hnarrow] at hback
  have hwidened : (widened bits).toNat = (if single.signBit ≤ bits.toNat then double.signBit else 0) + wide := by
    rw [widened, UInt64.toNat_ofNat', convert_eq, show single.fractionBits = 23 from rfl, hwide]
    exact Nat.mod_eq_of_lt (signed_lt hlt)
  have hnarrowed : (narrowed (widened bits)).toNat =
      ((if single.signBit ≤ bits.toNat then single.signBit else 0) + narrow) % (2 * single.signBit) := by
    rw [narrowed, UInt32.toNat_ofNat', convert_eq, show double.fractionBits = 52 from rfl, hwidened, mod_signed hlt,
      hnarrow]
    simp only [le_signed_iff hlt]
    rfl
  have hbits : bits.toNat < 2 * single.signBit := bits.toNat_lt
  rcases hback with hsame | ⟨hlarge, hlarge', hlt'⟩
  · left
    refine UInt32.toNat_inj.mp ?_
    rw [hnarrowed, hsame, signed_mod hbits, Nat.mod_eq_of_lt hbits]
  · right
    refine ⟨hlarge, ?_⟩
    rw [IsNotNumber, hnarrowed, Nat.mod_eq_of_lt (signed_lt hlt'), mod_signed hlt']
    exact hlarge'

end EngineBridge
