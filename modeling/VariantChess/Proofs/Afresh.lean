import VariantChess.Proofs.AlphaBeta
import VariantChess.Proofs.Symmetry

/-!
Positions set up afresh. A piece set up afresh has not moved, and a position set up afresh has taken
nothing and goes on. Nothing that a rule, a walk, the check or the search looks at is lost by it: every
list of moves is the same with its pieces set up afresh, in the same order, and every number and score
is the same. Playing a move marks what it moves, so after a move both positions have to be set up
afresh again before they agree.
-/

namespace VariantChess

def Piece.fresh (q : Piece) : Piece := { q with moved := false }

def Move.fresh (m : Move) : Move := { m with piece := m.piece.fresh }

def Board.fresh (b : Board) : Board :=
  ⟨b.dims, b.cells.map (·.map Piece.fresh), by rw [Array.size_map, b.size_cells]⟩

def Position.fresh (p : Position) : Position := .start p.board.fresh p.toMove

namespace Piece

variable (q : Piece) (s : Square)

@[simp] theorem fresh_square : q.fresh.square = q.square := rfl

@[simp] theorem fresh_side : q.fresh.side = q.side := rfl

@[simp] theorem fresh_kind : q.fresh.kind = q.kind := rfl

@[simp] theorem fresh_fresh : q.fresh.fresh = q.fresh := rfl

theorem fresh_eq_unmoved : q.fresh = .unmoved q.square q.side q.kind := rfl

theorem fresh_placedAt : (q.placedAt s).fresh = q.fresh.placedAt s := rfl

end Piece

namespace Move

variable (m : Move)

@[simp] theorem fresh_piece : m.fresh.piece = m.piece.fresh := rfl

@[simp] theorem fresh_action : m.fresh.action = m.action := rfl

@[simp] theorem fresh_origin : m.fresh.origin = m.origin := rfl

@[simp] theorem fresh_target : m.fresh.target = m.target := rfl

end Move

namespace Board

variable {b : Board} {s : Square} {side : Side}

@[simp] theorem fresh_fresh : b.fresh.fresh = b.fresh := by
  simp only [fresh, Array.map_map, Option.map_comp_map]
  rfl

@[simp] theorem dims_fresh : b.fresh.dims = b.dims := rfl

@[simp] theorem contains_fresh : b.fresh.contains s = b.contains s := rfl

theorem pieceOn_fresh : b.fresh.pieceOn s = (b.pieceOn s).map Piece.fresh := by
  cases inside : b.contains s with
  | false =>
      rw [pieceOn_of_not_contains inside, pieceOn_of_not_contains (b := b.fresh) inside]
      rfl
  | true =>
      rw [pieceOn_of_contains inside, pieceOn_of_contains (b := b.fresh) inside]
      simp only [fresh, Array.getElem?_map]
      cases b.cells[b.dims.index s]? <;> rfl

theorem pieces_fresh : b.fresh.pieces = b.pieces.map Piece.fresh := by
  rw [pieces_eq_filterMap, pieces_eq_filterMap, List.map_filterMap]
  exact List.filterMap_congr fun s _ => pieceOn_fresh

theorem piecesOf_fresh : b.fresh.piecesOf side = (b.piecesOf side).map Piece.fresh := by
  rw [piecesOf, piecesOf, pieces_fresh, List.filter_map]
  rfl

@[simp] theorem footing_fresh : b.fresh.footing side s = b.footing side s := by
  unfold footing
  rw [pieceOn_fresh]
  cases b.pieceOn s <;> rfl

@[simp] theorem isEmpty_fresh : b.fresh.isEmpty s = b.isEmpty s := by
  simp [isEmpty, pieceOn_fresh]

theorem fresh_set (piece : Option Piece) :
    (b.set s piece).fresh = b.fresh.set s (piece.map Piece.fresh) := by
  cases piece <;> simp [set, replace, fresh, Array.map_setIfInBounds, Piece.fresh_placedAt]

theorem fresh_remove : (b.remove s).fresh = b.fresh.remove s :=
  fresh_set none

end Board

/-! What a piece may do. -/

section Moves

variable {b : Board} {q : Piece}

theorem Gait.follow_fresh (g : Gait) (i : Intent) (side : Side) (memory : g.Memory) (s : Square)
    (route : Route) : g.follow i b.fresh side memory s route = g.follow i b side memory s route := by
  induction route generalizing memory s with
  | nil => rfl
  | cons step rest ih =>
      cases rest with
      | nil => simp only [follow_singleton, Board.contains_fresh, Board.footing_fresh]
      | cons next rest =>
          simp only [follow_cons_cons, Board.contains_fresh, Board.footing_fresh, ih]

theorem Mover.destinations_fresh (m : Mover) (i : Intent) :
    m.destinations i b.fresh q.fresh = m.destinations i b q := by
  unfold destinations Gait.landing?
  exact List.filterMap_congr fun route _ => Gait.follow_fresh _ i _ _ _ route

namespace Rule

theorem havens_fresh (refuge : Refuge) (side : Side) :
    havens refuge b.fresh side = havens refuge b side := by
  simp only [havens, Board.dims_fresh, Board.isEmpty_fresh]

theorem landings_fresh (r : Rule) : r.landings b.fresh q.fresh = r.landings b q := by
  cases r <;> simp only [landings, Mover.destinations_fresh, havens_fresh, Piece.fresh_side]

theorem partners_fresh (r : Rule) : r.partners b.fresh q.fresh = r.partners b q := by
  cases r with
  | exchange partner m =>
      simp only [partners, Piece.fresh_side, Piece.fresh_square, Board.piecesOf_fresh,
        List.filter_map, List.map_map]
      rfl
  | simple | retreat | moveCapture | combination => rfl

theorem moves_fresh (r : Rule) : r.moves b.fresh q.fresh = (r.moves b q).map Move.fresh := by
  rw [moves, moves, landings_fresh, partners_fresh, List.map_append, List.map_map, List.map_map]
  rfl

end Rule

variable {types : Roster}

theorem Board.landings_fresh : b.fresh.landings types q.fresh = b.landings types q := by
  unfold landings
  rw [Piece.fresh_kind]
  cases types[q.kind]? with
  | none => rfl
  | some t => exact Rule.landings_fresh t.rule

theorem Board.hasRoyal_fresh (side : Side) (s : Square) :
    b.fresh.hasRoyal types side s = b.hasRoyal types side s := by
  simp [hasRoyal, pieceOn_fresh, Option.any_map]

theorem Board.inCheck_fresh (b : Board) (types : Roster) (side : Side) :
    b.fresh.inCheck types side = b.inCheck types side := by
  have royal : b.fresh.hasRoyal types side = b.hasRoyal types side :=
    funext fun s => hasRoyal_fresh side s
  rw [inCheck, inCheck, piecesOf_fresh, List.any_map, royal]
  congr 1
  funext q
  rw [Function.comp_apply, landings_fresh]

end Moves

/-! What a position leads to. -/

namespace Position

variable {types : Roster} {p : Position} {q : Piece} {m : Move}

@[simp] theorem board_fresh : p.fresh.board = p.board.fresh := rfl

@[simp] theorem toMove_fresh : p.fresh.toMove = p.toMove := rfl

theorem semiLegalOf_fresh :
    p.fresh.semiLegalOf types q.fresh = (p.semiLegalOf types q).map Move.fresh := by
  unfold semiLegalOf
  rw [Piece.fresh_kind]
  cases types[q.kind]? with
  | none => rfl
  | some t => exact Rule.moves_fresh t.rule

theorem semiLegal_fresh : p.fresh.semiLegal types = (p.semiLegal types).map Move.fresh := by
  rw [semiLegal, semiLegal, board_fresh, toMove_fresh, Board.piecesOf_fresh, List.flatMap_map,
    List.map_flatMap]
  simp only [semiLegalOf_fresh]

/-- For any move, be it one that the position admits or not. -/
theorem boardAfter_fresh (p : Position) (m : Move) :
    (p.fresh.boardAfter m.fresh).fresh = (p.boardAfter m).fresh := by
  have mover : p.fresh.mover m.fresh = (p.mover m).fresh := by
    unfold mover
    rw [Move.fresh_origin, Move.fresh_piece, board_fresh, Board.pieceOn_fresh]
    cases p.board.pieceOn m.origin <;> rfl
  unfold boardAfter
  rw [Move.fresh_action, Move.fresh_origin, Move.fresh_target, mover, board_fresh]
  cases m.action with
  | go s =>
      simp only [Board.fresh_set, Board.fresh_remove, Board.fresh_fresh]
      rfl
  | swap s =>
      dsimp only
      rw [← Board.fresh_remove, Board.pieceOn_fresh]
      cases (p.board.remove m.origin).pieceOn s <;>
        simp only [Option.map_none, Option.map_some, Board.fresh_set, Board.fresh_remove,
          Board.fresh_fresh] <;> rfl

theorem fresh_after (p : Position) (m : Move) : (p.fresh.after m.fresh).fresh = (p.after m).fresh :=
  congrArg (Position.start · p.toMove.other) (boardAfter_fresh p m)

theorem keepsSafe_fresh : p.fresh.keepsSafe types m.fresh = p.keepsSafe types m := by
  rw [keepsSafe, keepsSafe, toMove_fresh, ← Board.inCheck_fresh (p.fresh.boardAfter m.fresh),
    boardAfter_fresh, Board.inCheck_fresh]

theorem legal_fresh : p.fresh.legal types = (p.legal types).map Move.fresh := by
  rw [legal, legal, semiLegal_fresh, List.filter_map]
  congr 1
  exact List.filter_congr fun m _ => keepsSafe_fresh

theorem legal_fresh_eq_nil : p.fresh.legal types = [] ↔ p.legal types = [] := by
  rw [legal_fresh, List.map_eq_nil_iff]

theorem hasLegal_fresh : p.fresh.hasLegal types = p.hasLegal types := by
  rw [Bool.eq_iff_iff, hasLegal_iff, hasLegal_iff, Ne, legal_fresh_eq_nil]

theorem outcome_fresh : p.fresh.outcome types = p.outcome types := by
  rw [outcome, outcome, hasLegal_fresh, board_fresh, toMove_fresh, Board.inCheck_fresh]

theorem perft_fresh (types : Roster) (depth : Nat) (p : Position) :
    perft types depth p.fresh = perft types depth p := by
  induction depth generalizing p with
  | zero => rfl
  | succ depth ih =>
      have reply (m : Move) :
          perft types depth (p.fresh.after m.fresh) = perft types depth (p.after m) := by
        rw [← ih, fresh_after, ih]
      rw [perft_succ, perft_succ, legal_fresh, List.map_map]
      exact congrArg List.sum (List.map_congr_left fun m _ => reply m)

end Position

/-! What a position is worth. -/

namespace Evaluator

variable {e : Evaluator} {p : Position}

theorem lead_fresh (b : Board) (side : Side) : e.lead b.fresh side = e.lead b side := by
  rw [lead, lead, Board.pieces_fresh, List.foldl_map]
  rfl

theorem finalScore_fresh (side : Side) : e.finalScore p.fresh side = e.finalScore p side := by
  rw [finalScore, finalScore, Position.board_fresh, Position.toMove_fresh, Board.inCheck_fresh]

theorem bestLead_fresh (e : Evaluator) (side : Side) (plies : Nat) (p : Position) :
    e.bestLead side plies p.fresh = e.bestLead side plies p := by
  induction plies generalizing p with
  | zero =>
      rw [bestLead, bestLead, Position.hasLegal_fresh, Position.board_fresh, lead_fresh,
        finalScore_fresh]
  | succ plies ih =>
      have reply (m : Move) :
          e.bestLead side plies (p.fresh.after m.fresh) = e.bestLead side plies (p.after m) := by
        rw [← ih, Position.fresh_after, ih]
      rw [bestLead, bestLead, Position.legal_fresh, List.isEmpty_map, finalScore_fresh,
        Position.toMove_fresh, List.map_map]
      congr 2
      exact List.map_congr_left fun m _ => reply m

theorem cutoff_fresh {reply : Int → Int → Position → Int}
    (same : ∀ alpha beta m, reply alpha beta (p.fresh.after m.fresh) = reply alpha beta (p.after m))
    (beta alpha best : Int) (moves : List Move) :
    cutoff reply p.fresh beta alpha best (moves.map Move.fresh) =
      cutoff reply p beta alpha best moves := by
  induction moves generalizing alpha best with
  | nil => rfl
  | cons m rest ih => simp only [List.map_cons, cutoff, same, ih]

theorem search_fresh (e : Evaluator) (plies : Nat) (alpha beta : Int) (p : Position) :
    e.search plies alpha beta p.fresh = e.search plies alpha beta p := by
  induction plies generalizing alpha beta p with
  | zero =>
      rw [search, search, Position.hasLegal_fresh, Position.board_fresh, Position.toMove_fresh,
        lead_fresh, finalScore_fresh]
  | succ plies ih =>
      have same (low high : Int) (m : Move) :
          e.search plies low high (p.fresh.after m.fresh) = e.search plies low high (p.after m) := by
        rw [← ih, Position.fresh_after, ih]
      rw [search, search, Position.legal_fresh, List.isEmpty_map, finalScore_fresh,
        Position.toMove_fresh, cutoff_fresh same]

theorem improve_fresh (plies : Nat) (alpha : Int) (best : Option (Move × Int)) (moves : List Move) :
    e.improve plies p.fresh alpha (best.map fun (m, score) => (m.fresh, score))
        (moves.map Move.fresh) =
      (e.improve plies p alpha best moves).map fun (m, score) => (m.fresh, score) := by
  induction moves generalizing alpha best with
  | nil => rfl
  | cons m rest ih =>
      have same : e.search plies (-infinity) (-alpha) (p.fresh.after m.fresh) =
          e.search plies (-infinity) (-alpha) (p.after m) := by
        rw [← search_fresh, Position.fresh_after, search_fresh]
      rw [List.map_cons, improve, improve, same]
      dsimp only
      split
      · exact ih _ (some (m, _))
      · exact ih alpha best

theorem bestMove_fresh (e : Evaluator) (p : Position) (plies : Nat) :
    e.bestMove p.fresh plies = (e.bestMove p plies).map fun (m, score) => (m.fresh, score) := by
  rw [bestMove, bestMove, Position.legal_fresh]
  exact improve_fresh (plies - 1) (-infinity) none _

end Evaluator

end VariantChess
