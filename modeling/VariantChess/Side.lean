/-!
The two sides. White starts on row 0 and advances up the board, Black starts on the last row and
advances down.
-/

namespace VariantChess

inductive Side
  | white
  | black
deriving DecidableEq, Repr, Inhabited

namespace Side

def all : List Side := [white, black]

def other : Side → Side
  | white => black
  | black => white

@[simp] theorem other_other (s : Side) : s.other.other = s := by cases s <;> rfl

@[simp] theorem other_ne_self (s : Side) : s.other ≠ s := by cases s <;> decide

theorem eq_or_eq_other (s t : Side) : t = s ∨ t = s.other := by cases s <;> cases t <;> decide

def index : Side → Nat
  | white => 0
  | black => 1

def name : Side → String
  | white => "white"
  | black => "black"

/-- The row step towards the opponent. -/
def advance : Side → Int
  | white => 1
  | black => -1

@[simp] theorem advance_other (s : Side) : s.other.advance = -s.advance := by cases s <;> rfl

/-- The row of the major pieces, on a board of `rows` rows. -/
def homeRow (rows : Int) : Side → Int
  | white => 0
  | black => rows - 1

/-- The row of the lowly pieces, one step in front of the home row. -/
def secondRow (rows : Int) (s : Side) : Int := s.homeRow rows + s.advance

end Side

end VariantChess
