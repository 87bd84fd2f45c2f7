import VariantChess.Proofs.SemiLegal

/-!
Playing a move that fits. Only its origin and its target change hands, the board stays sane, and
the pieces on the board and the one taken are together those of before. What is taken is an enemy.
-/

namespace VariantChess.Position

@[simp] theorem dims_boardAfter (p : Position) (m : Move) :
    (p.boardAfter m).dims = p.board.dims := by
  unfold boardAfter
  dsimp only
  split
  · rfl
  · split <;> rfl

variable {p : Position} {m : Move}

theorem Fits.origin_inside (fits : p.Fits m) : p.board.contains m.origin = true :=
  Board.contains_of_pieceOn fits.present

@[simp] theorem contains_remove (b : Board) (s t : Square) :
    (b.remove s).contains t = b.contains t := rfl

theorem mover_of_fits (fits : p.Fits m) : p.mover m = m.piece := by
  rw [mover, fits.present, Option.getD_some]

/-- Away from the origin nothing changes when the piece is lifted. -/
theorem pieceOn_lifted (fits : p.Fits m) {t : Square} (apart : t ≠ m.origin) :
    (p.board.remove m.origin).pieceOn t = p.board.pieceOn t := by
  rw [Board.pieceOn_remove fits.origin_inside, if_neg apart]

theorem partner_of_fits (fits : p.Fits m) {s : Square} (swap : m.action = .swap s) :
    ∃ partner, p.board.pieceOn s = some partner ∧ partner.side = m.piece.side :=
  Board.footing_eq_friend.1 (fits.swapping s swap)

theorem boardAfter_go {s : Square} (fits : p.Fits m) (go : m.action = .go s) :
    p.boardAfter m = (p.board.remove m.origin).set s (m.piece.movedTo s) := by
  have target : m.target = s := by rw [Move.target, go]
  simp only [boardAfter, mover_of_fits fits, go, target]

theorem boardAfter_swap {s : Square} {partner : Piece} (fits : p.Fits m)
    (swap : m.action = .swap s) (on : p.board.pieceOn s = some partner) : p.boardAfter m =
      (((p.board.remove m.origin).remove s).set s (m.piece.movedTo s)).set m.origin
        (partner.movedTo m.origin) := by
  have target : m.target = s := by rw [Move.target, swap]
  have lifted : (p.board.remove m.origin).pieceOn s = some partner := by
    rw [pieceOn_lifted fits (target ▸ fits.apart), on]
  simp only [boardAfter, mover_of_fits fits, swap, target, lifted]

theorem taken_go {s : Square} (fits : p.Fits m) (go : m.action = .go s) :
    p.taken m = (p.board.pieceOn s).toList := by
  have target : m.target = s := by rw [Move.target, go]
  simp only [taken, go]
  rw [pieceOn_lifted fits (target ▸ fits.apart)]

theorem taken_swap {s : Square} (swap : m.action = .swap s) : p.taken m = [] := by
  simp only [taken, swap]

/-- What a move takes stands on its target and belongs to the other side. -/
theorem taken_spec (fits : p.Fits m) {q : Piece} (h : q ∈ p.taken m) :
    m.action = .go m.target ∧ p.board.pieceOn m.target = some q ∧ q.side = m.piece.side.other := by
  cases act : m.action with
  | go s =>
      obtain rfl : m.target = s := by rw [Move.target, act]
      rw [taken_go fits act, Option.mem_toList] at h
      refine ⟨rfl, h, ?_⟩
      rcases Side.eq_or_eq_other m.piece.side q.side with friend | enemy
      · exact absurd (Board.footing_eq_friend.2 ⟨q, h, friend⟩) (fits.going _ act)
      · exact enemy
  | swap s =>
      rw [taken_swap act] at h
      cases h

theorem isSane_boardAfter (sane : p.board.isSane = true) (fits : p.Fits m) :
    (p.boardAfter m).isSane = true := by
  have lifted := Board.isSane_remove sane fits.origin_inside
  cases act : m.action with
  | go s =>
      obtain rfl : m.target = s := by rw [Move.target, act]
      rw [boardAfter_go fits act]
      exact Board.isSane_set lifted fits.inside _
  | swap s =>
      obtain rfl : m.target = s := by rw [Move.target, act]
      obtain ⟨partner, on, _⟩ := partner_of_fits fits act
      rw [boardAfter_swap fits act on]
      have both := Board.isSane_remove lifted fits.inside
      exact Board.isSane_set (Board.isSane_set both fits.inside _) fits.origin_inside _

theorem isSane_after (sane : p.board.isSane = true) (fits : p.Fits m) :
    (p.after m).board.isSane = true :=
  isSane_boardAfter sane fits

theorem census_swap {partner : Piece} (fits : p.Fits m) (swap : m.action = .swap m.target)
    (on : p.board.pieceOn m.target = some partner) : (p.boardAfter m).census = p.board.census := by
  let lifted := p.board.remove m.origin
  let cleared := lifted.remove m.target
  let half := cleared.set m.target (some (m.piece.movedTo m.target))
  have target_inside : lifted.contains m.target = true := fits.inside
  have origin_inside : half.contains m.origin = true := fits.origin_inside
  have held : lifted.pieceOn m.target = some partner := by
    rw [pieceOn_lifted fits fits.apart, on]
  have target_free : cleared.pieceOn m.target = none := by
    rw [Board.pieceOn_remove target_inside, if_pos rfl]
  have origin_free : half.pieceOn m.origin = none := by
    have away : m.origin ≠ m.target := fits.apart.symm
    rw [Board.pieceOn_set (b := cleared) target_inside, if_neg away,
      Board.pieceOn_remove target_inside, if_neg away, Board.pieceOn_remove fits.origin_inside,
      if_pos rfl]
  rw [boardAfter_swap fits swap on]
  calc (half.set m.origin (some (partner.movedTo m.origin))).census
      = half.census + {partner.label} := Board.census_place origin_inside origin_free _
    _ = cleared.census + {m.piece.label} + {partner.label} := by
      rw [Board.census_place (b := cleared) target_inside target_free, Piece.label_movedTo]
    _ = cleared.census + {partner.label} + {m.piece.label} := add_right_comm _ _ _
    _ = lifted.census + {m.piece.label} := by rw [Board.census_remove held]
    _ = p.board.census := Board.census_remove fits.present

/-- No piece is lost or made: who leaves the board is among the taken. -/
theorem census_boardAfter (fits : p.Fits m) :
    (p.boardAfter m).census + ↑((p.taken m).map Piece.label) = p.board.census := by
  cases act : m.action with
  | go s =>
      obtain rfl : m.target = s := by rw [Move.target, act]
      have lifted := Board.census_remove fits.present
      have placed := Board.census_set (b := p.board.remove m.origin) fits.inside
        (some (m.piece.movedTo m.target))
      rw [pieceOn_lifted fits fits.apart, Board.tally_some, Piece.label_movedTo, lifted] at placed
      rw [boardAfter_go fits act, taken_go fits act, ← placed]
      cases p.board.pieceOn m.target <;> rfl
  | swap s =>
      obtain rfl : m.target = s := by rw [Move.target, act]
      obtain ⟨partner, on, _⟩ := partner_of_fits fits act
      rw [taken_swap act, List.map_nil, Multiset.coe_nil, add_zero, census_swap fits act on]

end VariantChess.Position
