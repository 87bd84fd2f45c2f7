import VariantChess.Game.Generated
import VariantChess.Proofs.Fences

/-!
The first move of a game with drawn types. At the start either side is behind its fence, and Black still is
after one of White's outer pawns has stepped forward. So nobody is in check, and White has a legal move.
-/

namespace VariantChess

namespace Opening

/-- The position that games with drawn types start from. -/
def position : Position := .start standardBoard .white

def outerFiles : List Int := [0, 7]

/-- A step forward of the pawn on a file of White's second row. -/
def pawnStep (file : Int) : Move := .go (.unmoved ⟨1, file⟩ .white pawnKind) ⟨2, file⟩

theorem fenced_standardBoard (side : Side) : standardBoard.Fenced side := by
  cases side with
  | white => decide +kernel
  | black => decide +kernel

theorem fenced_after_pawnStep :
    ∀ file ∈ outerFiles, (position.boardAfter (pawnStep file)).Fenced .black := by
  decide +kernel

theorem pawnStep_landing : ∀ file ∈ outerFiles,
    position.board.pieceOn (pawnStep file).origin = some (pawnStep file).piece ∧
    ⟨2, file⟩ ∈ (Plan.pawn.build .standard).landings position.board (pawnStep file).piece := by
  decide +kernel

/-- The steps of the outer pawns are legal, whatever types have been drawn. -/
theorem pawnStep_mem_legal {types : Roster} (drawn : types.Drawn .standard 0 standardTypes) :
    ∀ file ∈ outerFiles, pawnStep file ∈ position.legal types := by
  intro file outer
  obtain ⟨stands, landing⟩ := pawnStep_landing file outer
  obtain ⟨pawn, _, _, _, _, _, rfl, type, _⟩ := drawn.six
  have sane : position.board.isSane = true := (fenced_standardBoard .white).sane
  have turn : (pawnStep file).piece.side = position.toMove := rfl
  refine Position.mem_legal.2 ⟨(Position.mem_semiLegal_iff_pieceOn sane).2 ⟨turn, stands, ?_⟩, ?_⟩
  · refine Position.go_mem_semiLegalOf.2 (Board.mem_landings.2 ⟨pawn, rfl, ?_⟩)
    rw [type.rule_eq type.plan]
    exact landing
  · have safe := (fenced_after_pawnStep file outer).safe drawn
    rw [Position.keepsSafe, Bool.not_eq_true']
    exact safe

end Opening

namespace Game

open Opening

variable {σ : Type} [RandomSource σ]

/-- A generated game starts from the starting position, with types that have been drawn. -/
theorem always_generate (player1 player2 : String) :
    Draw.Always (fun g => g.types.Drawn .standard 0 standardTypes ∧
        g.positions = [position.settled g.types])
      (generate player1 player2 : StateM σ Game) := by
  refine Draw.always_bind (Draw.always_true _) ?_
  intro ⟨white, black⟩ _
  refine Draw.always_bind (Draw.always_drawn (d := .standard) (by decide) (by decide)) ?_
  intro types drawn
  exact Draw.always_pure ⟨drawn, rfl⟩

/-- Any game with drawn types that stands at the starting position can go on. -/
theorem playable_of_drawn {g : Game} (drawn : g.types.Drawn .standard 0 standardTypes)
    (positions : g.positions = [position.settled g.types]) :
    ∃ p, g.positions = [p] ∧ p.board = standardBoard ∧ p.toMove = .white ∧ p.status = .ongoing ∧
      (∀ side, p.board.inCheck g.types side = false) ∧ p.legal g.types ≠ [] ∧
      ∀ file ∈ outerFiles, pawnStep file ∈ p.legal g.types := by
  have steps : ∀ file ∈ outerFiles, pawnStep file ∈ position.legal g.types := pawnStep_mem_legal drawn
  have movable : position.legal g.types ≠ [] := List.ne_nil_of_mem (steps 0 (by decide))
  have ongoing : position.outcome g.types = .ongoing := Position.outcome_eq_ongoing.2 movable
  have safe : ∀ side, position.board.inCheck g.types side = false := by
    intro side
    have fenced := (fenced_standardBoard side.other).safe drawn
    rwa [Side.other_other] at fenced
  refine ⟨position.settled g.types, positions, rfl, rfl, ?_, safe, ?_, ?_⟩
  · rwa [Position.status_settled, Position.outcome_settled]
  · rwa [Position.legal_settled]
  · rwa [Position.legal_settled]

/-- Whatever words the source yields, a generated game starts with nobody in check and with a legal move
for White: either pawn on the edge of the board may step forward. -/
theorem generated_playable (player1 player2 : String) (source : σ) :
    ∃ g p, ((generate player1 player2 : StateM σ Game).run source).1 = g ∧ g.positions = [p] ∧
      p.board = standardBoard ∧ p.toMove = .white ∧ p.status = .ongoing ∧
      (∀ side, p.board.inCheck g.types side = false) ∧ p.legal g.types ≠ [] ∧
      ∀ file ∈ outerFiles, pawnStep file ∈ p.legal g.types := by
  obtain ⟨drawn, positions⟩ := always_generate player1 player2 source
  obtain ⟨p, playable⟩ := playable_of_drawn drawn positions
  exact ⟨_, p, rfl, playable⟩

end Game

end VariantChess
