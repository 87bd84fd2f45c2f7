import VariantChess.Capacity
import VariantChess.Dimensions
import VariantChess.Piece

/-!
Boards: one cell for every square of the given dimensions, row by row, each empty or holding a piece.
Placing a piece writes its new square into it, so on a board made by `empty` and `set` every piece
names the square it stands on; `ofCells` accepts a list of cells only if that holds.
-/

namespace VariantChess

/-- Can a board of these dimensions be held? Every cell takes 24 bytes. -/
def Dimensions.isHoldable (d : Dimensions) : Bool := Capacity.holds d.squareCount 24

structure Board where
  dims : Dimensions
  cells : Array (Option Piece)
  size_cells : cells.size = dims.squareCount
deriving DecidableEq, Repr

/-- What a piece of one side finds on a square. -/
inductive Footing
  | empty
  | friend
  | enemy
deriving DecidableEq, Repr

namespace Board

def empty (dims : Dimensions) : Board :=
  ⟨dims, Array.replicate dims.squareCount none, Array.size_replicate⟩

@[simp] theorem dims_empty (d : Dimensions) : (empty d).dims = d := rfl

/-- An empty board, if it can be held. -/
def empty? (d : Dimensions) : Option Board := if d.isHoldable then some (empty d) else none

@[inline] def contains (b : Board) (s : Square) : Bool := b.dims.contains s

/-- The piece on a square; off the board there is none. -/
@[inline] def pieceOn (b : Board) (s : Square) : Option Piece :=
  if b.contains s then b.cells.getD (b.dims.index s) none else none

theorem pieceOn_of_not_contains {b : Board} {s : Square} (h : b.contains s = false) :
    b.pieceOn s = none := by
  simp [pieceOn, h]

theorem pieceOn_of_contains {b : Board} {s : Square} (h : b.contains s = true) :
    b.pieceOn s = (b.cells[b.dims.index s]?).getD none := by
  rw [pieceOn, if_pos h, Array.getD_eq_getD_getElem?]

@[simp] theorem pieceOn_empty (d : Dimensions) (s : Square) : (empty d).pieceOn s = none := by
  rw [pieceOn]
  split
  · rename_i h
    have inside : d.index s < d.squareCount := Dimensions.index_lt h
    simp [empty, inside]
  · rfl

def isEmpty (b : Board) (s : Square) : Bool := b.contains s && (b.pieceOn s).isNone

@[inline] def footing (b : Board) (side : Side) (s : Square) : Footing :=
  match b.pieceOn s with
  | none => .empty
  | some p => if p.side = side then .friend else .enemy

/-- Puts a piece, or nothing, on a square of the board, and hands out what its cell held. -/
@[inline] def replace (b : Board) (s : Square) (piece : Option Piece) : Option Piece × Board :=
  (b.cells.getD (b.dims.index s) none,
    ⟨b.dims, b.cells.setIfInBounds (b.dims.index s) (piece.map (·.placedAt s)),
      by simp [b.size_cells]⟩)

/-- Puts a piece, or nothing, on a square of the board in place of what was there. -/
def set (b : Board) (s : Square) (piece : Option Piece) : Board := (b.replace s piece).2

@[simp] theorem dims_set (b : Board) (s : Square) (piece : Option Piece) :
    (b.set s piece).dims = b.dims := rfl

@[simp] theorem contains_set (b : Board) (s t : Square) (piece : Option Piece) :
    (b.set s piece).contains t = b.contains t := rfl

/-- A set square holds what was put there, with its new square written in; the others are untouched. -/
theorem pieceOn_set {b : Board} {s : Square} (h : b.contains s = true) (piece : Option Piece)
    (t : Square) :
    (b.set s piece).pieceOn t = if t = s then piece.map (·.placedAt s) else b.pieceOn t := by
  have inside : b.dims.index s < b.cells.size := by
    rw [b.size_cells]
    exact Dimensions.index_lt h
  cases ht : b.contains t with
  | false =>
    have apart : t ≠ s := by
      rintro rfl
      simp [h] at ht
    rw [if_neg apart, pieceOn_of_not_contains ht, pieceOn_of_not_contains (by simpa using ht)]
  | true =>
    rw [pieceOn_of_contains ht, pieceOn_of_contains (by simpa using ht)]
    by_cases same : t = s
    · subst same
      simp [set, replace, inside]
    · have apart : b.dims.index s ≠ b.dims.index t := fun e =>
        same ((Dimensions.index_inj ht h).1 e.symm)
      simp [same, set, replace, apart]

/-- What is handed out is what the square showed. -/
theorem replace_of_contains {b : Board} {s : Square} (h : b.contains s = true)
    (piece : Option Piece) : b.replace s piece = (b.pieceOn s, b.set s piece) := by
  rw [pieceOn, if_pos h]
  rfl

/-- Puts a piece on a square, which must be on the board. -/
def set? (b : Board) (s : Square) (piece : Option Piece) : Option Board :=
  if b.contains s then some (b.set s piece) else none

def remove (b : Board) (s : Square) : Board := b.set s none

@[simp] theorem dims_remove (b : Board) (s : Square) : (b.remove s).dims = b.dims := rfl

theorem pieceOn_remove {b : Board} {s : Square} (h : b.contains s = true) (t : Square) :
    (b.remove s).pieceOn t = if t = s then none else b.pieceOn t := by
  rw [remove, pieceOn_set h]
  rfl

/-- All pieces, in the order of their squares. -/
def pieces (b : Board) : List Piece := (b.cells.filterMap id).toList

def piecesOf (b : Board) (side : Side) : List Piece := b.pieces.filter (·.side == side)

/-- Does every piece name the square it stands on? -/
def isSane (b : Board) : Bool :=
  b.cells.size.all fun i _ => (b.cells[i]).all (·.square == b.dims.squareAt i)

end Board

/-- The first square, in row order, whose piece is misplaced or of a type the board does not have. -/
def checkCells (kinds : Nat) : List (Square × Option Piece) → Except Error Unit
  | [] => .ok ()
  | (_, none) :: rest => checkCells kinds rest
  | (s, some p) :: rest =>
    if p.square ≠ s then .error (.misplacedPiece s p.square)
    else if kinds ≤ p.kind then .error (.unknownKind p.kind)
    else checkCells kinds rest

/-- Dimensions are checked first, then the number of cells, then each cell. -/
def Board.ofCells (dims : Dimensions) (cells : List (Option Piece)) : Except Error Board := do
  let checked ← Dimensions.make dims.rows dims.cols dims.kinds
  if size : cells.length = checked.squareCount then
    checkCells checked.kinds (checked.squares.zip cells)
    return ⟨checked, cells.toArray, by simpa using size⟩
  else .error (.squareCount checked.squareCount cells.length)

end VariantChess
