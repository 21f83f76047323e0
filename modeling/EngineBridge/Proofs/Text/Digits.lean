import EngineBridge.Text.Digits

/-! Decimal digits of numbers, and the numbers that are read back from them. -/

namespace EngineBridge

theorem digitValue_digitChar {d : Nat} (h : d < 16) : digitValue d.digitChar = d :=
  (by decide : ∀ d < 16, digitValue d.digitChar = d) d h

theorem numberOfDigits_toDigits {base : Nat} (hbase : 1 < base) (hmost : base ≤ 16) (n : Nat) :
    numberOfDigits base (Nat.toDigits base n) = n := by
  induction n using Nat.strongRecOn with
  | ind n ih =>
    by_cases hlt : n < base
    · have hvalue := digitValue_digitChar (Nat.lt_of_lt_of_le hlt hmost)
      rw [Nat.toDigits_of_lt_base hlt, numberOfDigits, List.foldl_cons, List.foldl_nil, hvalue, Nat.zero_mul, Nat.zero_add]
    · have hbelow : n / base < n := Nat.div_lt_self (by omega) hbase
      have hvalue := digitValue_digitChar (Nat.lt_of_lt_of_le (Nat.mod_lt n (by omega)) hmost)
      rw [Nat.toDigits_of_base_le hbase (Nat.le_of_not_lt hlt), numberOfDigits, List.foldl_append, ← numberOfDigits,
        ih _ hbelow, List.foldl_cons, List.foldl_nil, hvalue, Nat.div_add_mod']

/-- A zero stands alone: no other number begins with one. -/
theorem toDigits_front {n : Nat} (h : n ≠ 0) :
    ∃ c cs, Nat.toDigits 10 n = c :: cs ∧ c.isDigit = true ∧ c ≠ '0' ∧ ∀ d ∈ cs, d.isDigit = true := by
  have hfirst : ∃ c cs, Nat.toDigits 10 n = c :: cs ∧ c ≠ '0' := by
    induction n using Nat.strongRecOn with
    | ind n ih =>
      by_cases hlt : n < 10
      · refine ⟨n.digitChar, [], Nat.toDigits_of_lt_base hlt, ?_⟩
        exact (by decide : ∀ n < 10, n ≠ 0 → n.digitChar ≠ '0') n hlt h
      · obtain ⟨c, cs, hdigits, hc⟩ := ih (n / 10) (by omega) (by omega)
        exact ⟨c, cs ++ [(n % 10).digitChar], by rw [Nat.toDigits_of_base_le (by decide) (by omega), hdigits]; rfl, hc⟩
  obtain ⟨c, cs, hdigits, hc⟩ := hfirst
  have hall : ∀ d ∈ c :: cs, d.isDigit = true := by
    rw [← hdigits]
    exact fun d hd => Nat.isDigit_of_mem_toDigits (by decide) (by decide) hd
  exact ⟨c, cs, hdigits, hall c List.mem_cons_self, hc, fun d hd => hall d (List.mem_cons_of_mem _ hd)⟩

/-- A number is spelled by its digits, with a minus sign if it is negative. -/
theorem toList_toString (n : Int) :
    (toString n).toList = (if n < 0 then ['-'] else []) ++ Nat.toDigits 10 n.natAbs := by
  cases n with
  | ofNat n =>
    show n.repr.toList = _
    have hnonneg : ¬ Int.ofNat n < 0 := Int.not_lt.mpr (Int.natCast_nonneg n)
    rw [Nat.toList_repr, if_neg hnonneg]
    rfl
  | negSucc n =>
    show ("-" ++ (n + 1).repr).toList = _
    rw [String.toList_append, Nat.toList_repr, if_pos (Int.negSucc_lt_zero n)]
    rfl

end EngineBridge
