import VariantChess.Proofs.Execution
import VariantChess.Proofs.Grids

/-!
The shape of semi-legal moves, for any rules, stored route tables included. Routes may be empty, lead
through the square they started from or off the board: what a gait lets through is a square of the
board that no friend holds, so no move stays where it is. Playing a move is a short list of writes,
one cell each; for a semi-legal move all of them are on the board.
-/

namespace VariantChess

namespace Position

/-- What playing a move writes, in order. A swap clears both squares before it fills them, and fills
the second only if somebody stood on the first. -/
def writes (p : Position) (m : Move) : List Board.Write :=
  let moved := (p.mover m).movedTo m.target
  match m.action with
  | .go s => [⟨m.origin, none⟩, ⟨s, some moved⟩]
  | .swap s =>
    let back := ((p.board.remove m.origin).pieceOn s).map fun partner =>
      ⟨m.origin, some (partner.movedTo m.origin)⟩
    [⟨m.origin, none⟩, ⟨s, none⟩, ⟨s, some moved⟩] ++ back.toList

variable {types : Roster} {p : Position} {q : Piece} {m : Move}

theorem perform_writes (p : Position) (m : Move) : p.board.perform (p.writes m) = p.boardAfter m := by
  unfold writes boardAfter
  cases m.action with
  | go s => rfl
  | swap s =>
      dsimp only
      cases (p.board.remove m.origin).pieceOn s with
      | none => rfl
      | some partner => rfl

/-- Any move touches its origin and its target only. -/
theorem square_of_mem_writes {w : Board.Write} (listed : w ∈ p.writes m) :
    w.square = m.origin ∨ w.square = m.target := by
  unfold writes at listed
  cases act : m.action with
  | go s =>
      have target : m.target = s := by rw [Move.target, act]
      simp only [act, List.mem_cons, List.not_mem_nil, or_false] at listed
      rcases listed with rfl | rfl <;> simp [target]
  | swap s =>
      have target : m.target = s := by rw [Move.target, act]
      simp only [act, List.mem_append, List.mem_cons, List.not_mem_nil, or_false, Option.mem_toList,
        Option.map_eq_some_iff] at listed
      rcases listed with (rfl | rfl | rfl) | ⟨partner, _, rfl⟩ <;> simp [target]

theorem writes_inside (fits : p.Fits m) : ∀ w ∈ p.writes m, p.board.contains w.square = true := by
  intro w listed
  rcases square_of_mem_writes listed with origin | target
  · rw [origin]
    exact fits.origin_inside
  · rw [target]
    exact fits.inside

theorem swap_mem_semiLegalOf {s : Square} (sane : p.board.isSane = true) :
    Move.swap q s ∈ p.semiLegalOf types q ↔ ∃ t partner mover other, types[q.kind]? = some t ∧
      t.rule = .exchange partner mover ∧ p.board.pieceOn s = some other ∧ other.side = q.side ∧
      other.kind = partner ∧ s ≠ q.square := by
  simp only [mem_semiLegalOf, Rule.swap_mem_moves, Rule.mem_partners sane]
  refine ⟨?_, ?_⟩
  · rintro ⟨t, known, partner, mover, other, swap⟩
    exact ⟨t, partner, mover, other, known, swap⟩
  · rintro ⟨t, partner, mover, other, known, swap⟩
    exact ⟨t, known, partner, mover, other, swap⟩

theorem footing_of_go {s : Square} (listed : Move.go q s ∈ p.semiLegalOf types q) :
    p.board.pieceOn s = none ∨ ∃ other, p.board.pieceOn s = some other ∧ other.side = q.side.other := by
  obtain ⟨t, _, listed⟩ := mem_semiLegalOf.1 listed
  have friendless := (Rule.landing_inside (Rule.go_mem_moves.1 listed)).2
  cases footing : p.board.footing q.side s with
  | empty => exact .inl (Board.footing_eq_empty.1 footing)
  | friend => exact (friendless footing).elim
  | enemy => exact .inr (Board.footing_eq_enemy.1 footing)

/-- Whose turn it is makes no difference, so the moves may be those of a piece of either side. -/
theorem semiLegalOf_wellFormed (types : Roster) {p : Position} (sane : p.board.isSane = true)
    {q : Piece} (standing : q ∈ p.board.pieces) :
    (p.semiLegalOf types q).Nodup ∧
    (∀ m ∈ p.semiLegalOf types q,
      m.piece = q ∧ p.board.contains m.target = true ∧ m.target ≠ m.origin) ∧
    (∀ s, Move.go q s ∈ p.semiLegalOf types q → p.board.pieceOn s = none ∨
      ∃ other, p.board.pieceOn s = some other ∧ other.side = q.side.other) ∧
    (∀ s, Move.swap q s ∈ p.semiLegalOf types q ↔ ∃ t partner mover other,
      types[q.kind]? = some t ∧ t.rule = .exchange partner mover ∧
      p.board.pieceOn s = some other ∧ other.side = q.side ∧ other.kind = partner ∧ s ≠ q.square) ∧
    ∀ m ∈ p.semiLegalOf types q, p.board.perform (p.writes m) = p.boardAfter m ∧
      ∀ w ∈ p.writes m, p.board.contains w.square = true := by
  have home := (Board.mem_pieces_iff_pieceOn sane).1 standing
  refine ⟨semiLegalOf_nodup sane, ?_, fun s => footing_of_go, fun s => swap_mem_semiLegalOf sane, ?_⟩
  · intro m listed
    have fits := fits_of_mem_semiLegalOf sane home listed
    exact ⟨piece_of_mem_semiLegalOf listed, fits.inside, fits.apart⟩
  · intro m listed
    exact ⟨perform_writes p m, writes_inside (fits_of_mem_semiLegalOf sane home listed)⟩

end Position

/-! Two white pieces whose stored routes stand still, come back, leave the board and repeat. -/

namespace Wanderer

def mover : Mover :=
  ⟨.rider [⟨1, 0⟩], [[], [⟨0, 0⟩], [⟨1, 0⟩, ⟨-1, 0⟩], [⟨1, 0⟩, ⟨0, 1⟩], [⟨9, 9⟩, ⟨-8, -8⟩], [⟨1, 1⟩]], []⟩

def types : Roster := [⟨.exchange 0 mover, "Wanderer", "Wanderer", false⟩]

def piece : Piece := .unmoved ⟨0, 0⟩ .white 0

def position : Position :=
  .start (((Board.empty ⟨4, 4, 1⟩).set ⟨0, 0⟩ (some piece)).set ⟨3, 2⟩
    (some (.unmoved ⟨3, 2⟩ .white 0))) .white

end Wanderer

open Wanderer in
theorem Wanderer.swap_wellFormed : position.board.isSane = true ∧ piece ∈ position.board.pieces ∧
    position.semiLegalOf types piece = [.go piece ⟨1, 1⟩, .swap piece ⟨3, 2⟩] ∧
    position.board.perform (position.writes (.swap piece ⟨3, 2⟩)) =
      position.boardAfter (.swap piece ⟨3, 2⟩) := by
  have sane : position.board.isSane = true := by decide +kernel
  have standing : piece ∈ position.board.pieces := by decide +kernel
  have listed : position.semiLegalOf types piece = [.go piece ⟨1, 1⟩, .swap piece ⟨3, 2⟩] := by
    decide +kernel
  obtain ⟨_, _, _, _, played⟩ := Position.semiLegalOf_wellFormed types sane standing
  have swap : Move.swap piece ⟨3, 2⟩ ∈ position.semiLegalOf types piece := by simp [listed]
  exact ⟨sane, standing, listed, (played _ swap).1⟩

end VariantChess
