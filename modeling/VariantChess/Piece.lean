import VariantChess.Side
import VariantChess.Square

/-!
Pieces. A piece knows its square, its side and the number of its type, and whether it has moved; how
it moves is up to the game's piece types.
-/

namespace VariantChess

structure Piece where
  square : Square
  side : Side
  kind : Nat
  moved : Bool
deriving DecidableEq, Repr

namespace Piece

def unmoved (square : Square) (side : Side) (kind : Nat) : Piece := ⟨square, side, kind, false⟩

/-- The piece after a move of its own. -/
def movedTo (p : Piece) (square : Square) : Piece := { p with square, moved := true }

/-- The piece put on another square without a move. -/
def placedAt (p : Piece) (square : Square) : Piece := { p with square }

@[simp] theorem placedAt_square (p : Piece) : p.placedAt p.square = p := rfl

@[simp] theorem square_placedAt (p : Piece) (s : Square) : (p.placedAt s).square = s := rfl

@[simp] theorem placedAt_movedTo (p : Piece) (s : Square) : (p.movedTo s).placedAt s = p.movedTo s := rfl

end Piece

end VariantChess
