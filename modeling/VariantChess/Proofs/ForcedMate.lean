import VariantChess.Proofs.Minimax
import VariantChess.Proofs.Mobility

/-!
Forced mates. Within so many moves a side forces mate if one of its own moves, or every move of the other
side, leads to where it forces mate with a move less, down to a position in which the other side is mated.
As long as the material is worth less than a mate, the best lead is the score of a mate just then: what
the search finds at its horizon is worth less, a stalemate nothing, and the end of the game is seen
before the horizon is.
-/

namespace VariantChess

namespace Position

/-- Can the side play so that within so many moves, its own and the other's, the other side is mated? -/
def ForcesMate (types : Roster) (side : Side) (plies : Nat) (p : Position) : Prop :=
  if p.legal types = [] then p.board.inCheck types p.toMove = true ∧ p.toMove ≠ side
  else
    match plies with
    | 0 => False
    | plies + 1 =>
      if p.toMove = side then ∃ m ∈ p.legal types, (p.after m).ForcesMate types side plies
      else ∀ m ∈ p.legal types, (p.after m).ForcesMate types side plies

instance decidableForcesMate (types : Roster) (side : Side) :
    ∀ plies p, Decidable (ForcesMate types side plies p)
  | 0, p => inferInstanceAs (Decidable (if p.legal types = [] then _ else False))
  | plies + 1, p =>
    have (m : Move) : Decidable ((p.after m).ForcesMate types side plies) :=
      decidableForcesMate types side plies (p.after m)
    inferInstanceAs (Decidable (if p.legal types = [] then _ else if p.toMove = side
      then ∃ m ∈ p.legal types, (p.after m).ForcesMate types side plies
      else ∀ m ∈ p.legal types, (p.after m).ForcesMate types side plies))

variable {types : Roster} {side : Side} {p : Position} {plies : Nat}

theorem forcesMate_of_legal_eq_nil (stuck : p.legal types = []) :
    p.ForcesMate types side plies ↔ p.board.inCheck types p.toMove = true ∧ p.toMove ≠ side := by
  rw [ForcesMate.eq_def, if_pos stuck]

theorem not_forcesMate_zero (able : p.legal types ≠ []) : ¬ p.ForcesMate types side 0 := by
  rw [ForcesMate.eq_def, if_neg able]
  exact id

theorem forcesMate_succ_self (able : p.legal types ≠ []) (turn : p.toMove = side) :
    p.ForcesMate types side (plies + 1) ↔
      ∃ m ∈ p.legal types, (p.after m).ForcesMate types side plies := by
  rw [ForcesMate.eq_def, if_neg able]
  exact iff_of_eq (if_pos turn)

theorem forcesMate_succ_other (able : p.legal types ≠ []) (turn : p.toMove ≠ side) :
    p.ForcesMate types side (plies + 1) ↔
      ∀ m ∈ p.legal types, (p.after m).ForcesMate types side plies := by
  rw [ForcesMate.eq_def, if_neg able]
  exact iff_of_eq (if_neg turn)

end Position

namespace Evaluator

variable {e : Evaluator} {p : Position} {side : Side} {plies : Nat}

theorem finalScore_eq_mateScore : e.finalScore p side = mateScore ↔
    p.board.inCheck e.types p.toMove = true ∧ p.toMove ≠ side := by
  unfold finalScore
  cases p.board.inCheck e.types p.toMove with
  | false => simp [mateScore]
  | true => by_cases turn : p.toMove = side <;> simp [turn, mateScore]

/-- The other side picks what is worst. -/
theorem bestLead_le_after {m : Move} (listed : m ∈ p.legal e.types) (turn : p.toMove ≠ side)
    (plies : Nat) : e.bestLead side (plies + 1) p ≤ e.bestLead side plies (p.after m) := by
  obtain rfl : side = p.toMove.other := (Side.eq_or_eq_other p.toMove side).resolve_left turn.symm
  rw [bestLead_other, bestLead_other]
  exact Int.neg_le_neg (bestLead_after_le listed plies)

/-- The induction keeps the bounds of all lines: no score beats a mate, and no material equals one. -/
theorem Moderate.bestLead_eq_mateScore (h : e.Moderate p) (less : e.material p.board < mateScore)
    (side : Side) (plies : Nat) :
    e.bestLead side plies p = mateScore ↔ p.ForcesMate e.types side plies := by
  induction plies, p using ply_induction e with
  | ended plies p stuck =>
      rw [bestLead_of_legal_eq_nil stuck, Position.forcesMate_of_legal_eq_nil stuck]
      exact finalScore_eq_mateScore
  | horizon p able =>
      refine iff_of_false ?_ (Position.not_forcesMate_zero able)
      rw [bestLead_zero able]
      exact ((lead_le_material h.fair p.board side).trans_lt less).ne
  | ahead plies p able ih =>
      have best := (h.inRange_bestLead side (plies + 1)).2
      have reply {m : Move} (listed : m ∈ p.legal e.types) :
          e.bestLead side plies (p.after m) = mateScore ↔
            (p.after m).ForcesMate e.types side plies := by
        have fits := Position.fits_of_mem_legal h.sane listed
        exact ih m listed (h.after listed) ((material_boardAfter_le h.fair fits).trans_lt less)
      obtain ⟨m, listed, score⟩ := exists_bestLead_after able side plies
      by_cases turn : p.toMove = side
      · rw [Position.forcesMate_succ_self able turn]
        refine ⟨?_, ?_⟩
        · intro mate
          exact ⟨m, listed, (reply listed).1 (score.trans mate)⟩
        · rintro ⟨n, listed, forced⟩
          have least := bestLead_after_le listed plies
          rw [turn, (reply listed).2 forced] at least
          exact le_antisymm best least
      · rw [Position.forcesMate_succ_other able turn]
        refine ⟨?_, ?_⟩
        · intro mate n listed
          have least := bestLead_le_after listed turn plies
          have most := ((h.after listed).inRange_bestLead side plies).2
          rw [mate] at least
          exact (reply listed).1 (le_antisymm most least)
        · intro forced
          rw [← score]
          exact (reply listed).2 (forced m listed)

end Evaluator

/-- The types on the board need not be known to the game; those that are not count nothing. -/
theorem Game.mate_scores (g : Game) (small : g.dims.squareCount ≤ 1000) {p : Position}
    (sane : p.board.isSane = true) (dims : p.board.dims = g.dims) (side : Side) (plies : Nat) :
    (g.evaluator.bestLead side plies p = Evaluator.mateScore ↔ p.ForcesMate g.types side plies) ∧
    (g.evaluator.bestLead side plies p = -Evaluator.mateScore ↔
      p.ForcesMate g.types side.other plies) := by
  have bound : g.evaluator.material p.board ≤ Evaluator.mostMaterial g.dims :=
    Evaluator.material_le g.types (congrArg Dimensions.squareCount dims)
  have less := bound.trans_lt (Evaluator.mostMaterial_lt_mateScore small)
  have moderate : g.evaluator.Moderate p := ⟨Evaluator.fair_make g.types g.dims, sane, less.le⟩
  refine ⟨moderate.bestLead_eq_mateScore less side plies, ?_⟩
  have opposite := moderate.bestLead_eq_mateScore less side.other plies
  rw [Evaluator.bestLead_other, neg_eq_iff_eq_neg] at opposite
  exact opposite

/-- Black is to move, and the one move there is steps into the mate on the last row. -/
def Endgame.cornered : Position := { initial with toMove := .black }

open Endgame in
theorem Endgame.mate_in_two : game.dims.squareCount ≤ 1000 ∧ cornered.board.isSane = true ∧
    cornered.board.dims = game.dims ∧
    cornered.ForcesMate types .white 2 ∧ ¬ cornered.ForcesMate types .white 1 ∧
    game.evaluator.bestLead .white 2 cornered = Evaluator.mateScore ∧
    game.evaluator.bestLead .black 2 cornered = -Evaluator.mateScore ∧
    game.evaluator.bestLead .white 1 cornered ≠ Evaluator.mateScore := by
  have small : game.dims.squareCount ≤ 1000 := by decide
  have sane : cornered.board.isSane = true := by decide +kernel
  have dims : cornered.board.dims = game.dims := rfl
  have forced : cornered.ForcesMate types .white 2 := by decide +kernel
  have early : ¬ cornered.ForcesMate types .white 1 := by decide +kernel
  have scores := Game.mate_scores game small sane dims
  refine ⟨small, sane, dims, forced, early, ?_, ?_, ?_⟩
  · exact (scores .white 2).1.2 forced
  · exact (scores .black 2).2.2 forced
  · exact mt (scores .white 1).1.1 early

end VariantChess
