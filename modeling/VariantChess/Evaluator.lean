import VariantChess.Dimensions.Survey
import VariantChess.Game

/-!
Scores by material and search. A piece type is worth the number of moves that a lone piece of it has
from the middle of an empty board, and a royal type nothing. A mate is worth more than any material.
The best move is searched with cut-offs, the best lead without. Scores are 32-bit numbers: where the
board of a lone piece cannot be laid out, or a sum of material is no such number, there is no score.
-/

namespace VariantChess

structure Evaluator where
  types : Roster
  values : List Int
deriving Repr

namespace Evaluator

def mateScore : Int := 1000000

/-- More than any score. -/
def infinity : Int := mateScore + 1

/-- The board with nothing but one white piece in its middle. -/
def lonePosition (d : Dimensions) (kind : Nat) : Position :=
  .start ((Board.empty d).set d.center (some (.unmoved d.center .white kind))) .white

def worth (types : Roster) (d : Dimensions) (kind : Nat) (t : PieceType) : Int :=
  if t.royal then 0
  else ((lonePosition d kind).semiLegalOf types (.unmoved d.center .white kind)).length

def make (types : Roster) (d : Dimensions) : Evaluator :=
  ⟨types, types.zipIdx.map fun (t, kind) => worth types d kind t⟩

/-- What a type is worth, if a board can be laid out with one piece in its middle. The number of moves is
kept as a 32-bit number. -/
def worth? (types : Roster) (d : Dimensions) (center : Square) (kind : Nat) (t : PieceType) : Option Int :=
  if t.royal then some 0
  else do
    let piece := Piece.unmoved center .white kind
    let b ← (← Board.empty? d).set? center (some piece)
    return coordinateLength ((Position.start b .white).semiLegalOf types piece).length

def make? (types : Roster) (d : Dimensions) : Option Evaluator := do
  let center ← (Survey.ofDimensions d).center?
  return ⟨types, ← types.zipIdx.mapM fun (t, kind) => worth? types d center kind t⟩

/-- Unknown types are worth nothing. -/
def value (e : Evaluator) (kind : Nat) : Int := e.values.getD kind 0

/-- What a piece counts for a side. -/
def stake (e : Evaluator) (side : Side) (p : Piece) : Int :=
  if p.side = side then e.value p.kind else -e.value p.kind

/-- The material of a side less that of its opponent. -/
def lead (e : Evaluator) (b : Board) (side : Side) : Int :=
  b.pieces.foldl (fun lead p => lead + e.stake side p) 0

/-- A result, if it is a signed 32-bit number. -/
def int32? (x : Int) : Option Int :=
  if -↑(UInt32.size / 2) ≤ x ∧ x < ↑(UInt32.size / 2) then some x else none

/-- The lead, if every sum on the way to it is a 32-bit number. -/
def lead? (e : Evaluator) (b : Board) (side : Side) : Option Int :=
  b.pieces.foldlM (fun lead p => int32? (lead + e.stake side p)) 0

/-- The score of a position without legal moves. -/
def finalScore (e : Evaluator) (p : Position) (side : Side) : Int :=
  if !p.board.inCheck e.types p.toMove then 0
  else if p.toMove = side then -mateScore
  else mateScore

/-- The greatest score, or the least. -/
def choose (greatest : Bool) : List Int → Int
  | [] => 0
  | x :: rest => rest.foldl (fun a b => if greatest then max a b else min a b) x

/-- The lead that a side can force within so many moves, every line being searched. -/
def bestLead (e : Evaluator) (side : Side) : Nat → Position → Int
  | 0, p => if p.hasLegal e.types then e.lead p.board side else e.finalScore p side
  | plies + 1, p =>
    let moves := p.legal e.types
    if moves.isEmpty then e.finalScore p side
    else choose (p.toMove = side) (moves.map fun m => bestLead e side plies (p.after m))

/-- The same, if all the leads that are compared exist. -/
def bestLead? (e : Evaluator) (side : Side) : Nat → Position → Option Int
  | 0, p => if p.hasLegal e.types then e.lead? p.board side else some (e.finalScore p side)
  | plies + 1, p =>
    let moves := p.legal e.types
    if moves.isEmpty then some (e.finalScore p side)
    else do return choose (p.toMove = side) (← moves.mapM fun m => bestLead? e side plies (p.after m))

/-- The best of `best` and the replies still to be tried, until one of them reaches `beta`. -/
def cutoff (reply : Int → Int → Position → Int) (p : Position) (beta : Int) :
    Int → Int → List Move → Int
  | _, best, [] => best
  | alpha, best, m :: rest =>
    let best := max best (-reply (-beta) (-alpha) (p.after m))
    let alpha := max alpha best
    if alpha ≥ beta then best else cutoff reply p beta alpha best rest

/-- The lead of the side to move, exact if it lies between `alpha` and `beta`. -/
def search (e : Evaluator) : Nat → Int → Int → Position → Int
  | 0, _, _, p => if p.hasLegal e.types then e.lead p.board p.toMove else e.finalScore p p.toMove
  | plies + 1, alpha, beta, p =>
    let moves := p.legal e.types
    if moves.isEmpty then e.finalScore p p.toMove
    else cutoff (search e plies) p beta alpha (-infinity) moves

/-- Tries moves in turn, keeping the first with the greatest score. -/
def improve (e : Evaluator) (plies : Nat) (p : Position) :
    Int → Option (Move × Int) → List Move → Option (Move × Int)
  | _, best, [] => best
  | alpha, best, m :: rest =>
    let score := -e.search plies (-infinity) (-alpha) (p.after m)
    if score > alpha then improve e plies p score (some (m, score)) rest
    else improve e plies p alpha best rest

/-- The best move within so many moves, and the lead that it secures. -/
def bestMove (e : Evaluator) (p : Position) (plies : Nat) : Option (Move × Int) :=
  improve e (plies - 1) p (-infinity) none (p.legal e.types)

end Evaluator

/-- The evaluator of a game's piece types, on its own board. -/
def Game.evaluator (g : Game) : Evaluator := .make g.types g.dims

def Game.evaluator? (g : Game) : Option Evaluator := Evaluator.make? g.types g.dims

end VariantChess
