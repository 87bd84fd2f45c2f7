import VariantChess.Proofs.Setups

/-!
Only the placement and the side to move decide what can follow. Two positions that show the same types
of the same sides on the same squares are the same set up afresh, whatever their pieces did before and
whatever was taken, and a position has the same future as itself set up afresh. That future is compared
move by move, a move being told by the square it starts from and by what it does.
-/

namespace VariantChess

/-- What a move does, apart from the history of its piece. -/
def Move.deed (m : Move) : Square × Action := (m.origin, m.action)

namespace Position

/-- The same pieces by side and type on the same squares of boards of one shape, and the same side to
move. -/
structure Alike (p q : Position) : Prop where
  dims : q.board.dims = p.board.dims
  toMove : q.toMove = p.toMove
  labels : ∀ s, (q.board.pieceOn s).map Piece.label = (p.board.pieceOn s).map Piece.label

/-- The same legal play, to any depth, and the same scores. -/
structure SameFuture (g : Game) (p q : Position) : Prop where
  semiLegal : (q.semiLegal g.types).map Move.deed = (p.semiLegal g.types).map Move.deed
  legal : (q.legal g.types).map Move.deed = (p.legal g.types).map Move.deed
  check : ∀ side, q.board.inCheck g.types side = p.board.inCheck g.types side
  outcome : q.outcome g.types = p.outcome g.types
  perft : ∀ depth, perft g.types depth q = perft g.types depth p
  bestLead : ∀ side plies, g.evaluator.bestLead side plies q = g.evaluator.bestLead side plies p
  bestMove : ∀ plies, (g.evaluator.bestMove q plies).map (Prod.map Move.deed id) =
    (g.evaluator.bestMove p plies).map (Prod.map Move.deed id)

namespace SameFuture

variable {g : Game} {p q r : Position}

theorem symm (h : SameFuture g p q) : SameFuture g q p :=
  ⟨h.semiLegal.symm, h.legal.symm, fun side => (h.check side).symm, h.outcome.symm,
    fun depth => (h.perft depth).symm, fun side plies => (h.bestLead side plies).symm,
    fun plies => (h.bestMove plies).symm⟩

theorem trans (h : SameFuture g p q) (h' : SameFuture g q r) : SameFuture g p r :=
  ⟨h'.semiLegal.trans h.semiLegal, h'.legal.trans h.legal,
    fun side => (h'.check side).trans (h.check side), h'.outcome.trans h.outcome,
    fun depth => (h'.perft depth).trans (h.perft depth),
    fun side plies => (h'.bestLead side plies).trans (h.bestLead side plies),
    fun plies => (h'.bestMove plies).trans (h.bestMove plies)⟩

theorem fresh (g : Game) (p : Position) : SameFuture g p p.fresh where
  semiLegal := by
    rw [semiLegal_fresh, List.map_map]
    rfl
  legal := by
    rw [legal_fresh, List.map_map]
    rfl
  check := Board.inCheck_fresh p.board g.types
  outcome := outcome_fresh
  perft depth := perft_fresh g.types depth p
  bestLead side plies := Evaluator.bestLead_fresh g.evaluator side plies p
  bestMove plies := by
    rw [Evaluator.bestMove_fresh, Option.map_map]
    rfl

end SameFuture

theorem alike_of_fresh_eq {p q : Position} (board : q.board.fresh = p.board.fresh)
    (toMove : q.toMove = p.toMove) : Alike p q := by
  have dims : q.board.fresh.dims = p.board.fresh.dims := congrArg Board.dims board
  refine ⟨dims, toMove, ?_⟩
  intro s
  have shown := congrArg (fun b : Board => (b.pieceOn s).map Piece.label) board
  simp only [Board.pieceOn_fresh, Option.map_map] at shown
  exact shown

theorem alike_fresh (p : Position) : Alike p p.fresh :=
  alike_of_fresh_eq Board.fresh_fresh rfl

/-- On sane boards a piece afresh is told by its label and its square. -/
theorem Alike.fresh_eq {p q : Position} (h : Alike p q) (sane : p.board.isSane = true)
    (sane' : q.board.isSane = true) : q.fresh = p.fresh := by
  have board : q.board.fresh = p.board.fresh := by
    refine Board.ext_pieceOn h.dims ?_
    intro s
    have label := h.labels s
    rw [Board.pieceOn_fresh, Board.pieceOn_fresh]
    cases on : p.board.pieceOn s with
    | none =>
        rw [on, Option.map_none, Option.map_eq_none_iff] at label
        rw [label]
    | some a =>
        rw [on, Option.map_some, Option.map_eq_some_iff] at label
        obtain ⟨b, on', same⟩ := label
        obtain ⟨side, kind⟩ := Prod.mk.inj same
        have square : b.square = a.square :=
          (Board.square_of_pieceOn sane' on').trans (Board.square_of_pieceOn sane on).symm
        rw [on', Option.map_some, Option.map_some, Piece.fresh_eq_unmoved, Piece.fresh_eq_unmoved,
          square, side, kind]
  rw [fresh, fresh, board, h.toMove]

/-- The second part takes a position apart and sets it up again, which needs types that its board
knows. -/
theorem placement_decides (g : Game) {p : Position} (sane : p.board.isSane = true) :
    (∀ q, q.board.isSane = true → Alike p q → SameFuture g p q) ∧
    ((∀ piece ∈ p.board.pieces, piece.kind < p.board.dims.kinds) →
      ∃ q, (Setup.ofPosition p).position = .ok q ∧ Alike p q ∧ SameFuture g p q) := by
  refine ⟨?_, ?_⟩
  · intro q sane' alike
    have same := SameFuture.fresh g q
    rw [alike.fresh_eq sane sane'] at same
    exact (SameFuture.fresh g p).trans same.symm
  · intro known
    exact ⟨p.fresh, Setup.position_ofPosition sane known, alike_fresh p, .fresh g p⟩

end Position

/-! White's king and rook have changed places; or they always stood there, and a rook is gone. -/

namespace Endgame

def exchanged : Position := initial.after exchange

def replaced : Position := { exchanged.fresh with status := .stalemate, captured := [rook] }

open Position in
theorem exchanged_like_replaced : exchanged.board.isSane = true ∧
    replaced.board.isSane = true ∧ exchanged.board ≠ replaced.board ∧ Alike exchanged replaced ∧
    (∀ piece ∈ exchanged.board.pieces, piece.kind < exchanged.board.dims.kinds) ∧
    perft types 3 replaced = perft types 3 exchanged ∧
    ∃ q, (Setup.ofPosition exchanged).position = .ok q ∧ SameFuture game exchanged q := by
  have sane : exchanged.board.isSane = true := by decide +kernel
  have sane' : replaced.board.isSane = true := by decide +kernel
  have apart : exchanged.board ≠ replaced.board := by decide +kernel
  have alike : Alike exchanged replaced := alike_of_fresh_eq Board.fresh_fresh rfl
  have known : ∀ piece ∈ exchanged.board.pieces, piece.kind < exchanged.board.dims.kinds := by
    decide +kernel
  obtain ⟨same, setUp⟩ := placement_decides game sane
  obtain ⟨q, made, _, future⟩ := setUp known
  exact ⟨sane, sane', apart, alike, known, (same replaced sane' alike).perft 3, q, made, future⟩

end Endgame

end VariantChess
