import VariantChess.Square

/-!
Motions, the simple ways of moving a piece. Steps are given as White makes them, and every motion can
also be made with left and right swapped. A motion says nothing of the board, beyond which routes over
it may be tried.
-/

namespace VariantChess

/-- The leaps of `m` squares one way and `n` the other, for all `m` and `n` between the bounds. -/
structure LeapSpan where
  mMin : Int
  mMax : Int
  nMin : Int
  nMax : Int
deriving DecidableEq, Repr

/-- One leap, such as the knight's of one square and two. -/
def LeapSpan.single (m n : Int) : LeapSpan := ⟨m, m, n, n⟩

inductive Motion
  /-- Between `min` and `max` single steps, each along any of `steps`. -/
  | walker (steps : List Step) (min max : Nat)
  /-- Any distance along one step. -/
  | rider (steps : List Step)
  /-- One leap, over anything in between. -/
  | leaper (span : LeapSpan)
  /-- The same leap any number of times. -/
  | leaprider (span : LeapSpan)
  /-- A hop over an adjacent piece, then a ride. -/
  | catapult (steps : List Step)
  /-- A ride up to a piece, to land just past it. -/
  | grasshopper (steps : List Step)
  /-- Up to `limit` hops, each over an adjacent piece. -/
  | leapfrog (steps : List Step) (limit : Nat)
deriving DecidableEq, Repr

inductive MotionKind
  | walker
  | rider
  | leaper
  | leaprider
  | catapult
  | grasshopper
  | leapfrog
deriving DecidableEq, Repr

def Motion.kind : Motion → MotionKind
  | walker .. => .walker
  | rider _ => .rider
  | leaper _ => .leaper
  | leaprider _ => .leaprider
  | catapult _ => .catapult
  | grasshopper _ => .grasshopper
  | leapfrog .. => .leapfrog

namespace Step

/-- The steps that a drawn piece type may be given. Columns are never negative, since left and right may
be swapped anyway. -/
def canonical : List Step := [⟨1, 0⟩, ⟨1, 1⟩, ⟨0, 1⟩, ⟨-1, 0⟩, ⟨-1, 1⟩]

/-- The canonical steps towards the opponent. -/
def forward : List Step := [⟨1, 0⟩, ⟨1, 1⟩]

theorem mem_canonical_of_mem_forward {s : Step} (h : s ∈ forward) : s ∈ canonical := by
  simp only [forward, List.mem_cons, List.not_mem_nil, or_false] at h
  rcases h with rfl | rfl <;> decide

end Step

end VariantChess
