/-!
What can be held in memory. Addresses are signed 64-bit numbers, so room for a list can only be
reserved if it takes no more than `addressable` bytes; asked for more, a program fails at once. What
fills up little by little is not bounded here.
-/

namespace VariantChess.Capacity

/-- The most bytes that one list may take. -/
def addressable : Nat := UInt64.size / 2 - 1

/-- Can room for so many items, each of so many bytes, be reserved? -/
def holds (items itemBytes : Nat) : Bool := items * itemBytes ≤ addressable

theorem holds_of_le {m n itemBytes : Nat} (h : m ≤ n) (fits : holds n itemBytes = true) :
    holds m itemBytes = true := by
  simp only [holds, decide_eq_true_eq] at fits ⊢
  exact Nat.le_trans (Nat.mul_le_mul_right itemBytes h) fits

theorem lt_of_holds {items itemBytes : Nat} (sized : 1 ≤ itemBytes) (fits : holds items itemBytes = true) :
    items < UInt64.size := by
  simp only [holds, decide_eq_true_eq] at fits
  have most : addressable < UInt64.size := by decide
  exact Nat.lt_of_le_of_lt (Nat.le_trans (Nat.le_mul_of_pos_right items sized) fits) most

end VariantChess.Capacity
