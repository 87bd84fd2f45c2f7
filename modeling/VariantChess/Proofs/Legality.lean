import VariantChess.Game
import VariantChess.Proofs.SemiLegal

/-!
Legality, as seen by whoever asks. Membership in the list of legal moves, the test of a single
move, the list of each piece, the status of a position and the look-up of a move by its two
squares all agree. Only the test of a single move needs the board to be sane: it looks for the
piece where the move says.
-/

namespace VariantChess

namespace Position

variable {types : Roster} {p : Position} {m : Move}

theorem legal_eq_flatMap (types : Roster) (p : Position) :
    p.legal types = (p.board.piecesOf p.toMove).flatMap (p.legalOf types) := by
  rw [legal, semiLegal, List.filter_flatMap]
  rfl

theorem hasLegal_iff : p.hasLegal types = true ↔ p.legal types ≠ [] := by
  have some_legal : p.hasLegal types = true ↔ ∃ m, m ∈ p.legal types := by
    simp only [legal_eq_flatMap, hasLegal, List.any_eq_true, List.mem_flatMap, mem_legalOf]
    refine ⟨?_, ?_⟩
    · intro ⟨q, standing, m, listed, safe⟩
      exact ⟨m, q, standing, listed, safe⟩
    · intro ⟨m, q, standing, listed, safe⟩
      exact ⟨q, standing, m, listed, safe⟩
  rw [some_legal]
  refine ⟨?_, ?_⟩
  · intro ⟨m, listed⟩
    exact List.ne_nil_of_mem listed
  · exact List.exists_mem_of_ne_nil _

theorem not_hasLegal (stuck : p.legal types = []) : ¬ p.hasLegal types = true := by
  rw [hasLegal_iff]
  exact not_not.2 stuck

theorem outcome_eq_ongoing : p.outcome types = .ongoing ↔ p.legal types ≠ [] := by
  rw [← hasLegal_iff]
  unfold outcome
  by_cases able : p.hasLegal types = true
  · simp [able]
  · by_cases check : p.board.inCheck types p.toMove = true <;> simp [able, check]

theorem outcome_of_legal_eq_nil (stuck : p.legal types = []) : p.outcome types =
    if p.board.inCheck types p.toMove then .checkmate else .stalemate := by
  rw [outcome, if_neg (not_hasLegal stuck)]

theorem outcome_eq_checkmate : p.outcome types = .checkmate ↔
    p.legal types = [] ∧ p.board.inCheck types p.toMove = true := by
  by_cases stuck : p.legal types = []
  · rw [outcome_of_legal_eq_nil stuck]
    simp [stuck]
  · simp [outcome_eq_ongoing.2 stuck, stuck]

theorem isSemiLegal_iff : p.isSemiLegal types m = true ↔
    m.piece.side = p.toMove ∧ p.board.pieceOn m.origin = some m.piece ∧
      m ∈ p.semiLegalOf types m.piece := by
  simp [isSemiLegal, and_assoc]

theorem mem_semiLegal_of_isSemiLegal (h : p.isSemiLegal types m = true) :
    m ∈ p.semiLegal types := by
  obtain ⟨turn, standing, listed⟩ := isSemiLegal_iff.1 h
  exact mem_semiLegal.2 ⟨Board.mem_piecesOf.2 ⟨Board.mem_pieces.2 ⟨_, standing⟩, turn⟩, listed⟩

theorem isSemiLegal_iff_mem (sane : p.board.isSane = true) :
    p.isSemiLegal types m = true ↔ m ∈ p.semiLegal types := by
  rw [isSemiLegal_iff, mem_semiLegal_iff_pieceOn sane]

theorem isLegal_iff : p.isLegal types m = true ↔
    p.isSemiLegal types m = true ∧ p.keepsSafe types m = true := by
  simp [isLegal]

theorem mem_legal_of_isLegal (h : p.isLegal types m = true) : m ∈ p.legal types := by
  obtain ⟨semiLegal, safe⟩ := isLegal_iff.1 h
  exact mem_legal.2 ⟨mem_semiLegal_of_isSemiLegal semiLegal, safe⟩

theorem fits_of_isLegal (sane : p.board.isSane = true) (h : p.isLegal types m = true) : p.Fits m :=
  fits_of_mem_legal sane (mem_legal_of_isLegal h)

theorem isLegal_iff_mem (sane : p.board.isSane = true) :
    p.isLegal types m = true ↔ m ∈ p.legal types := by
  rw [isLegal_iff, isSemiLegal_iff_mem sane, mem_legal]

theorem semiLegal_nodup (sane : p.board.isSane = true) : (p.semiLegal types).Nodup := by
  rw [semiLegal, List.nodup_flatMap]
  refine ⟨fun q _ => semiLegalOf_nodup sane, (Board.piecesOf_nodup sane p.toMove).imp ?_⟩
  intro q r apart m listed listed'
  apply apart
  rw [← piece_of_mem_semiLegalOf listed, piece_of_mem_semiLegalOf listed']

theorem legal_nodup (sane : p.board.isSane = true) : (p.legal types).Nodup :=
  (semiLegal_nodup sane).filter _

end Position

/-- The lines of a position begin with its legal moves, also at the last depth, which is not played
out. -/
theorem perft_succ (types : Roster) (depth : Nat) (p : Position) : perft types (depth + 1) p =
    ((p.legal types).map fun m => perft types depth (p.after m)).sum := by
  cases depth with
  | zero => simp [perft]
  | succ depth =>
      rw [perft, if_neg (Nat.succ_ne_zero depth), List.sum_eq_foldl, List.foldl_map]

theorem Game.findMove_eq_some {g : Game} (sane : g.current.board.isSane = true) {a b : Square}
    {m : Move} : g.findMove a b = some m ↔
      m ∈ g.current.legal g.types ∧ m.origin = a ∧ m.target = b := by
  simp only [findMove, Option.bind_eq_bind, Option.bind_eq_some_iff]
  rw [Position.mem_legal, Position.mem_semiLegal_iff_pieceOn sane]
  refine ⟨?_, ?_⟩
  · rintro ⟨q, standing, found⟩
    by_cases turn : q.side = g.current.toMove
    · rw [if_pos turn] at found
      have listed := List.mem_of_find?_eq_some found
      obtain ⟨semiLegal, safe⟩ := Position.mem_legalOf.1 listed
      obtain rfl := Position.piece_of_mem_semiLegalOf semiLegal
      have named := Board.square_of_pieceOn sane standing
      have reached : m.target = b := by simpa using List.find?_some found
      exact ⟨⟨⟨turn, by rwa [Move.origin, named], semiLegal⟩, safe⟩, named, reached⟩
    · rw [if_neg turn] at found
      cases found
  · rintro ⟨⟨⟨turn, standing, semiLegal⟩, safe⟩, rfl, rfl⟩
    refine ⟨m.piece, standing, ?_⟩
    rw [if_pos turn]
    cases found : (g.current.legalOf g.types m.piece).find? (·.target == m.target) with
    | none =>
        have missed := List.find?_eq_none.1 found m (Position.mem_legalOf.2 ⟨semiLegal, safe⟩)
        simp at missed
    | some n =>
        have same : n.target = m.target := by simpa using List.find?_some found
        have listed := Position.mem_legalOf.1 (List.mem_of_find?_eq_some found)
        rw [Position.semiLegalOf_target_injective sane listed.1 semiLegal same]

/-! White mates with the rook on the last of four rows, the other way out being held by the king. -/

namespace Endgame

def dims : Dimensions := ⟨4, 4, 2⟩

def types : Roster :=
  [⟨Plan.build dims .king, "King", "King", true⟩,
    ⟨Plan.build dims (.exchange 0 (.rider [⟨1, 0⟩, ⟨0, 1⟩, ⟨-1, 0⟩])), "Rook", "Rook", false⟩]

def rook : Piece := .unmoved ⟨0, 3⟩ .white 1

def board : Board :=
  (((Board.empty dims).set ⟨1, 1⟩ (some (.unmoved ⟨1, 1⟩ .white 0))).set ⟨0, 3⟩ (some rook)).set
    ⟨3, 0⟩ (some (.unmoved ⟨3, 0⟩ .black 0))

def initial : Position := .start board .white

def game : Game := .start ⟨"white", "black"⟩ types initial

def mate : Move := .go rook ⟨3, 3⟩

theorem isSane_initial : initial.board.isSane = true := by decide +kernel

end Endgame

/-- Row order is the order of the squares of the board. -/
theorem legality_views_agree (g : Game) {p : Position} (sane : p.board.isSane = true)
    (sane_now : g.current.board.isSane = true) :
    (∀ m, p.isLegal g.types m = true ↔ m ∈ p.legal g.types) ∧
    (∀ m, p.isSemiLegal g.types m = true ↔ m ∈ p.semiLegal g.types) ∧
    (p.legal g.types).Nodup ∧
    p.legal g.types = ((p.board.dims.squares.filterMap p.board.pieceOn).filter
      (·.side == p.toMove)).flatMap (p.legalOf g.types) ∧
    (p.outcome g.types = .ongoing ↔ p.legal g.types ≠ []) ∧
    (p.legal g.types = [] →
      (p.outcome g.types = .checkmate ↔ p.board.inCheck g.types p.toMove = true)) ∧
    ∀ a b m, g.findMove a b = some m ↔
      m ∈ g.current.legal g.types ∧ m.origin = a ∧ m.target = b := by
  refine ⟨fun m => Position.isLegal_iff_mem sane, fun m => Position.isSemiLegal_iff_mem sane,
    Position.legal_nodup sane, ?_, Position.outcome_eq_ongoing, ?_,
    fun a b m => Game.findMove_eq_some sane_now⟩
  · rw [← Board.pieces_eq_filterMap]
    exact Position.legal_eq_flatMap g.types p
  · intro stuck
    rw [Position.outcome_of_legal_eq_nil stuck]
    split <;> simp_all

theorem findMove_mate : Endgame.initial.board.isSane = true ∧
    Endgame.game.current.board.isSane = true ∧
    Endgame.game.findMove ⟨0, 3⟩ ⟨3, 3⟩ = some Endgame.mate := by
  have sane_now : Endgame.game.current.board.isSane = true := by decide +kernel
  have listed : Endgame.mate ∈ Endgame.game.current.legal Endgame.game.types := by decide +kernel
  obtain ⟨_, _, _, _, _, _, find⟩ := legality_views_agree Endgame.game Endgame.isSane_initial sane_now
  exact ⟨Endgame.isSane_initial, sane_now, (find _ _ _).2 ⟨listed, rfl, rfl⟩⟩

end VariantChess
