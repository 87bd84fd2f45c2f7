import VariantChess.Position

/-!
Positions under construction: dimensions, a list of placements in the order they were made, and the
side to move. Placing a piece on a square replaces what was placed there before. Nothing else is
checked until a board is made of it, and then the first bad placement is reported.
-/

namespace VariantChess

structure Placement where
  square : Square
  kind : Nat
  side : Side
deriving DecidableEq, Repr

structure Setup where
  dims : Dimensions
  placements : List Placement
  toMove : Side
deriving DecidableEq, Repr

namespace Setup

def empty (dims : Dimensions) : Setup := ⟨dims, [], .white⟩

def clear (u : Setup) (s : Square) : Setup :=
  { u with placements := u.placements.filter (·.square != s) }

def place (u : Setup) (p : Placement) : Setup :=
  { u with placements := (u.clear p.square).placements ++ [p] }

def withSide (u : Setup) (side : Side) : Setup := { u with toMove := side }

def get? (u : Setup) (s : Square) : Option Placement := u.placements.find? (·.square == s)

theorem get?_clear (u : Setup) (s t : Square) :
    (u.clear s).get? t = if t = s then none else u.get? t := by
  simp only [get?, clear, List.find?_filter]
  split
  · rename_i same
    subst same
    exact List.find?_eq_none.2 fun p _ => by simp
  · rename_i apart
    congr 1
    funext p
    by_cases h : p.square = t <;> simp [h, apart]

theorem get?_place (u : Setup) (p : Placement) (t : Square) :
    (u.place p).get? t = if t = p.square then some p else u.get? t := by
  have cleared := get?_clear u p.square t
  simp only [get?] at cleared
  simp only [get?, place, List.find?_append, cleared]
  split
  · rename_i same
    simp [same]
  · rename_i apart
    simp [Ne.symm apart]

def ofPlacements (dims : Dimensions) (placements : List Placement) (side : Side) : Setup :=
  placements.foldl place ((empty dims).withSide side)

/-- Adds one placement to a board, on which its square and type must exist. -/
def put (b : Board) (p : Placement) : Except Error Board :=
  if !b.contains p.square then .error (.offBoard p.square)
  else if b.dims.kinds ≤ p.kind then .error (.unknownKind p.kind)
  else .ok (b.set p.square (some (.unmoved p.square p.side p.kind)))

def board (u : Setup) : Except Error Board := u.placements.foldlM put (.empty u.dims)

def position (u : Setup) : Except Error Position := do
  return .start (← u.board) u.toMove

/-- The board of a setup, or what is wrong with it, if the board can be held. -/
def board? (u : Setup) : Option (Except Error Board) := do
  let b ← Board.empty? u.dims
  return u.placements.foldlM put b

def position? (u : Setup) : Option (Except Error Position) := do
  return (← u.board?).map (.start · u.toMove)

/-- The placements that give a position's board, in row order. -/
def ofPosition (p : Position) : Setup :=
  ofPlacements p.board.dims (p.board.pieces.map fun q => ⟨q.square, q.kind, q.side⟩) p.toMove

end Setup

end VariantChess
