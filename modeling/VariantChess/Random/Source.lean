/-!
Sources of random numbers. A source yields a number below a bound, a number of the unit interval, a
member of a list or the order of a pair, and moves on. How it does so is its own business: of its
outcomes only the laws stated here are known. In a free source, moreover, whatever can come out at all
can come out in front of whatever is to come later.
-/

namespace VariantChess

class RandomSource (σ : Type) where
  /-- A number below a bound, which must not be 0. -/
  below : Nat → StateM σ Nat
  /-- A number of the unit interval, below 1. -/
  unit : StateM σ Float
  /-- A member of a list, if it has any. -/
  choose {α : Type} : List α → StateM σ (Option α)
  /-- Two things in a random order. -/
  shufflePair {α : Type} : α → α → StateM σ (α × α)
  below_lt {n : Nat} : 0 < n → n ≤ UInt64.size → ∀ s, ((below n).run s).1 < n
  choose_mem {α : Type} {xs : List α} : xs ≠ [] → xs.length ≤ UInt64.size →
    ∀ s, ∃ x ∈ xs, ((choose xs).run s).1 = some x
  choose_nil {α : Type} : ∀ s, (choose ([] : List α)).run s = (none, s)
  shufflePair_cases {α : Type} (x y : α) :
    ∀ s, ((shufflePair x y).run s).1 = (x, y) ∨ ((shufflePair x y).run s).1 = (y, x)

/-- Every number below a bound is possible, and so is every outcome of a draw from the unit interval,
whatever is drawn later. -/
class FreeSource (σ : Type) [RandomSource σ] : Prop where
  below_onto {n i : Nat} (later : σ) : i < n → n ≤ UInt64.size →
    ∃ s, (RandomSource.below n).run s = (i, later)
  unit_onto (drawn later : σ) :
    ∃ s, RandomSource.unit.run s = ((RandomSource.unit.run drawn).1, later)

end VariantChess
