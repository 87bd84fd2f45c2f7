import VariantChess.Board
import VariantChess.Dimensions.Survey

/-!
The starting position: the back row of either side on its home row, and pawns on the row in front of
it. Only boards with eight columns and all six piece types have one; the rows between stay empty. A
board is laid out by the rows that its survey counts, so on boards too long for that it goes wrong.
-/

namespace VariantChess.Opening

/-- The type numbers of the back row, from the `a` file. -/
def backRow : List Nat := [1, 2, 3, 4, 5, 3, 2, 1]

def pawnKind : Nat := 0

/-- The starting pieces of one side on so many rows. -/
def piecesOn (rows : Int) (side : Side) : List Piece :=
  backRow.zipIdx.flatMap fun (kind, (col : Nat)) =>
    [.unmoved ⟨side.homeRow rows, col⟩ side kind, .unmoved ⟨side.secondRow rows, col⟩ side pawnKind]

def piecesOf (d : Dimensions) (side : Side) : List Piece := piecesOn d.rows side

def place (b : Board) (p : Piece) : Board := b.set p.square (some p)

/-- The starting position of a board that has one. -/
def boardOf (d : Dimensions) : Board := (Side.all.flatMap (piecesOf d)).foldl place (.empty d)

def standardBoard : Board := boardOf .standard

/-- Has a board of these dimensions a starting position? The width is looked at first. -/
def check (d : Dimensions) : Except Error Unit :=
  if d.cols ≠ backRow.length then .error (.noStartingPosition d.cols)
  else match backRow.find? (d.kinds ≤ ·) with
    | some kind => .error (.unknownKind kind)
    | none => .ok ()

def board (d : Dimensions) : Except Error Board := do
  check d
  return boardOf d

/-- Lays out the pieces, each on a square of the board. -/
def layOut? (rows : Int) (b : Board) : Option Board :=
  (Side.all.flatMap (piecesOn rows)).foldlM (fun b p => b.set? p.square (some p)) b

/-- The starting board, or why there is none, if it can be held and laid out. -/
def board? (d : Dimensions) : Option (Except Error Board) :=
  match check d with
  | .error e => some (.error e)
  | .ok () => do
    let b ← Board.empty? d
    return .ok (← layOut? (Survey.ofDimensions d).rows b)

end VariantChess.Opening
