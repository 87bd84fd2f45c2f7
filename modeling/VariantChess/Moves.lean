import VariantChess.Rule

/-!
The moves of a position. Semi-legal moves are those the movement rules allow; legal ones do not leave
a royal piece of the mover to be taken. Moves are listed by piece, in the order of their squares.
-/

namespace VariantChess

namespace Board

/-- Is there a royal piece of `side` on this square? -/
def hasRoyal (b : Board) (types : Roster) (side : Side) (s : Square) : Bool :=
  (b.pieceOn s).any fun p => p.side == side && (types[p.kind]?).any (·.royal)

/-- The squares that a piece may go to, with repeats. A piece of unknown type goes nowhere. -/
def landings (b : Board) (types : Roster) (p : Piece) : List Square :=
  match types[p.kind]? with
  | none => []
  | some t => t.rule.landings b p

/-- Could the opponent take a royal piece of `side`, if it were their turn? -/
def inCheck (b : Board) (types : Roster) (side : Side) : Bool :=
  (b.piecesOf side.other).any fun p => (b.landings types p).any (b.hasRoyal types side)

end Board

namespace Position

variable (types : Roster) (p : Position)

def semiLegalOf (q : Piece) : List Move :=
  match types[q.kind]? with
  | none => []
  | some t => t.rule.moves p.board q

def semiLegal : List Move := (p.board.piecesOf p.toMove).flatMap (p.semiLegalOf types)

def keepsSafe (m : Move) : Bool := !(p.boardAfter m).inCheck types p.toMove

def legalOf (q : Piece) : List Move := (p.semiLegalOf types q).filter (p.keepsSafe types)

def legal : List Move := (p.semiLegal types).filter (p.keepsSafe types)

def hasLegal : Bool :=
  (p.board.piecesOf p.toMove).any fun q => (p.semiLegalOf types q).any (p.keepsSafe types)

/-- The status that the position itself shows, whatever status it carries. -/
def outcome : Status :=
  if p.hasLegal types then .ongoing
  else if p.board.inCheck types p.toMove then .checkmate
  else .stalemate

/-- A semi-legal move is made by a piece of the side to move that stands where the move says. -/
def isSemiLegal (m : Move) : Bool :=
  m.piece.side == p.toMove && p.board.pieceOn m.origin == some m.piece &&
    (p.semiLegalOf types m.piece).contains m

def isLegal (m : Move) : Bool := p.isSemiLegal types m && p.keepsSafe types m

end Position

/-- The number of sequences of `depth` legal moves. -/
def perft (types : Roster) : Nat → Position → Nat
  | 0, _ => 1
  | depth + 1, p =>
    if depth = 0 then (p.legal types).length
    else (p.legal types).foldl (fun count m => count + perft types depth (p.after m)) 0

/-- Moves still to be tried, from which single moves may be struck out. -/
structure MoveQueue where
  pending : List Move
deriving DecidableEq, Repr

namespace MoveQueue

def next (q : MoveQueue) : Option Move × MoveQueue :=
  match q.pending with
  | [] => (none, q)
  | m :: rest => (some m, ⟨rest⟩)

/-- Strikes out a move, and tells whether it was still to come. -/
def remove (q : MoveQueue) (m : Move) : Bool × MoveQueue :=
  (q.pending.contains m, ⟨q.pending.erase m⟩)

def size (q : MoveQueue) : Nat := q.pending.length

/-- The least and the greatest number of moves to come. -/
def sizeHint (q : MoveQueue) : Nat × Option Nat := (q.size, some q.size)

end MoveQueue

end VariantChess
