import VariantChess.Opening
import VariantChess.Proofs.Validity

/-!
Starting boards. Only boards with eight columns and all six types have one, and there it is valid: every
piece is put on a square of the board, and its type is known.
-/

namespace VariantChess.Opening

variable {d : Dimensions}

theorem check_eq_ok : check d = .ok () ↔ d.cols = 8 ∧ 6 ≤ d.kinds := by
  have needed : (∀ kind ∈ backRow, ¬ d.kinds ≤ kind) ↔ 6 ≤ d.kinds := by
    simp only [backRow, List.mem_cons, List.not_mem_nil, or_false, forall_eq_or_imp, forall_eq]
    omega
  have width : backRow.length = 8 := rfl
  unfold check
  rw [width, ← needed]
  split
  · simp [*]
  · rename_i cols
    have missing := List.find?_eq_none (p := (d.kinds ≤ ·)) (l := backRow)
    simp only [decide_eq_true_eq] at missing
    rw [← missing, not_not.1 cols]
    cases backRow.find? (d.kinds ≤ ·) <;> simp

theorem valid_foldl_place {b : Board} {pieces : List Piece} (valid : b.Valid)
    (suits : ∀ q ∈ pieces, b.contains q.square = true ∧ q.kind < b.dims.kinds) :
    (pieces.foldl place b).Valid ∧ (pieces.foldl place b).dims = b.dims := by
  induction pieces generalizing b with
  | nil => exact ⟨valid, rfl⟩
  | cons piece rest ih =>
      obtain ⟨⟨inside, known⟩, others⟩ := List.forall_mem_cons.1 suits
      exact ih (valid.set inside known) others

theorem mem_piecesOf {side : Side} {q : Piece} :
    q ∈ piecesOf d side ↔ ∃ (col kind : Nat), backRow[col]? = some kind ∧
      (q = .unmoved ⟨side.homeRow d.rows, col⟩ side kind ∨
        q = .unmoved ⟨side.secondRow d.rows, col⟩ side pawnKind) := by
  simp only [piecesOf, piecesOn, List.mem_flatMap, Prod.exists, List.mem_zipIdx_iff_getElem?, List.mem_cons,
    List.not_mem_nil, or_false]
  exact exists_comm

theorem spec_of_mem_piecesOf (rows : 4 ≤ d.rows) (cols : d.cols = 8) {side : Side} {q : Piece}
    (listed : q ∈ piecesOf d side) : d.contains q.square = true ∧ q.kind < 6 := by
  obtain ⟨col, kind, among, here⟩ := mem_piecesOf.1 listed
  have kinds : ∀ kind ∈ backRow, kind < 6 := by decide
  have known : kind < 6 := kinds _ (List.mem_of_getElem? among)
  have right : col < 8 := (List.getElem?_eq_some_iff.1 among).1
  have home : 0 ≤ side.homeRow d.rows ∧ side.homeRow d.rows < d.rows := by
    cases side <;> simp only [Side.homeRow] <;> omega
  have second : 0 ≤ side.secondRow d.rows ∧ side.secondRow d.rows < d.rows := by
    cases side <;> simp only [Side.secondRow, Side.homeRow, Side.advance] <;> omega
  have inside : (col : Int) < d.cols := by omega
  rcases here with rfl | rfl
  · exact ⟨Dimensions.contains_iff.2 ⟨home.1, Int.natCast_nonneg col, home.2, inside⟩, known⟩
  · have pawn : pawnKind < 6 := by decide
    exact ⟨Dimensions.contains_iff.2 ⟨second.1, Int.natCast_nonneg col, second.2, inside⟩, pawn⟩

theorem valid_boardOf (rows : 4 ≤ d.rows) (cols : d.cols = 8) (kinds : 6 ≤ d.kinds) :
    (boardOf d).Valid ∧ (boardOf d).dims = d := by
  have playable : d.Playable := ⟨rows, by omega, by omega⟩
  refine valid_foldl_place (Board.valid_empty playable) ?_
  intro q listed
  obtain ⟨side, _, among⟩ := List.mem_flatMap.1 listed
  obtain ⟨inside, known⟩ := spec_of_mem_piecesOf rows cols among
  exact ⟨inside, Nat.lt_of_lt_of_le known kinds⟩

theorem board_eq_ok {b : Board} : board d = .ok b ↔ (d.cols = 8 ∧ 6 ≤ d.kinds) ∧ boardOf d = b := by
  rw [board, bind_eq_ok, ← check_eq_ok]
  refine ⟨?_, ?_⟩
  · rintro ⟨_, checked, made⟩
    exact ⟨checked, Except.ok.inj made⟩
  · rintro ⟨checked, rfl⟩
    exact ⟨(), checked, rfl⟩

/-- A board that can be played on has a valid starting board if it has one at all. -/
theorem valid_of_board {b : Board} (playable : d.Playable) (made : board d = .ok b) : b.Valid := by
  obtain ⟨⟨cols, kinds⟩, rfl⟩ := board_eq_ok.1 made
  exact (valid_boardOf playable.1 cols kinds).1

end VariantChess.Opening
