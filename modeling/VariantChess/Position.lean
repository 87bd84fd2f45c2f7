import VariantChess.Board

/-!
Moves and positions. A move names its piece, as the piece stood before it, and either a square to go
to or a friendly piece's square to swap with. A position is a snapshot between two moves; playing a
move from it carries the status over unchanged.
-/

namespace VariantChess

inductive Action
  | go (target : Square)
  | swap (target : Square)
deriving DecidableEq, Repr

structure Move where
  piece : Piece
  action : Action
deriving DecidableEq, Repr

namespace Move

def go (piece : Piece) (target : Square) : Move := ⟨piece, .go target⟩

def swap (piece : Piece) (target : Square) : Move := ⟨piece, .swap target⟩

def origin (m : Move) : Square := m.piece.square

def target (m : Move) : Square :=
  match m.action with
  | .go s => s
  | .swap s => s

def isSwap (m : Move) : Bool :=
  match m.action with
  | .go _ => false
  | .swap _ => true

@[simp] theorem origin_go (p : Piece) (s : Square) : (go p s).origin = p.square := rfl

@[simp] theorem target_go (p : Piece) (s : Square) : (go p s).target = s := rfl

@[simp] theorem origin_swap (p : Piece) (s : Square) : (swap p s).origin = p.square := rfl

@[simp] theorem target_swap (p : Piece) (s : Square) : (swap p s).target = s := rfl

def chars (m : Move) : List Char :=
  match m.action with
  | .go s => m.origin.chars ++ s.chars
  | .swap s => m.origin.chars ++ '<' :: '>' :: s.chars

def text (m : Move) : String := String.ofList m.chars

end Move

inductive Status
  | ongoing
  | checkmate
  | stalemate
deriving DecidableEq, Repr

def Status.isOver (s : Status) : Bool := s != .ongoing

/-- Captured pieces are kept in the order of their capture, as they stood when taken. -/
structure Position where
  board : Board
  toMove : Side
  status : Status
  captured : List Piece
deriving DecidableEq, Repr

namespace Position

def start (board : Board) (toMove : Side) : Position := ⟨board, toMove, .ongoing, []⟩

/-- The piece that a move takes off its square: the one standing there, or else the one named. -/
def mover (p : Position) (m : Move) : Piece := (p.board.pieceOn m.origin).getD m.piece

/-- The board after a move. A swap lifts both pieces before it puts them down. -/
def boardAfter (p : Position) (m : Move) : Board :=
  let lifted := p.board.remove m.origin
  let moved := (p.mover m).movedTo m.target
  match m.action with
  | .go s => lifted.set s moved
  | .swap s =>
    let placed := (lifted.remove s).set s moved
    match lifted.pieceOn s with
    | none => placed
    | some partner => placed.set m.origin (partner.movedTo m.origin)

/-- What stands on the target of a move once its piece is lifted; a swap takes nothing. -/
def taken (p : Position) (m : Move) : List Piece :=
  match m.action with
  | .go s => ((p.board.remove m.origin).pieceOn s).toList
  | .swap _ => []

/-- A move can be played if its piece stands where it says and its target is on the board. -/
def admits (p : Position) (m : Move) : Bool :=
  p.board.pieceOn m.origin == some m.piece && p.board.contains m.target

/-- The position after a move, which should be one that the position admits. -/
def after (p : Position) (m : Move) : Position :=
  ⟨p.boardAfter m, p.toMove.other, p.status, p.captured ++ p.taken m⟩

@[simp] theorem toMove_after (p : Position) (m : Move) : (p.after m).toMove = p.toMove.other := rfl

@[simp] theorem status_after (p : Position) (m : Move) : (p.after m).status = p.status := rfl

end Position

end VariantChess
