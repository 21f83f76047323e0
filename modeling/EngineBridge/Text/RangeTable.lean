/-! Sets of characters given by ranges of code points. -/

namespace EngineBridge

/-- Closed ranges of code points in increasing order. -/
structure RangeTable where
  ranges : Array (Nat × Nat)

namespace RangeTable

/-- The character's code point lies in one of the ranges. -/
def contains (t : RangeTable) (c : Char) : Bool :=
  t.ranges.any fun r => r.1 ≤ c.toNat && c.toNat ≤ r.2

theorem contains_iff (t : RangeTable) (c : Char) :
    t.contains c = true ↔ ∃ r ∈ t.ranges, r.1 ≤ c.toNat ∧ c.toNat ≤ r.2 := by
  simp [contains, ← Array.any_toList]

end RangeTable
end EngineBridge
