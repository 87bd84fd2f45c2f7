import VariantChess.Proofs.Grids
import VariantChess.Proofs.Openings
import VariantChess.Proofs.Reflection

/-!
What stands on a starting board. Either side has a row of pawns and a row behind it, and on a board of at
least four rows these are four different rows, however far apart they are. So no piece is put where another
one stands already, all of them are on the board in the end, and turning the board over by its ranks
changes nothing. All this is lost if there are more rows than coordinates.
-/

namespace VariantChess.Opening

variable {d : Dimensions} {side : Side} {q : Piece} {s : Square}

/-- The pieces of both sides, in the order in which they are placed. -/
def pieces (d : Dimensions) : List Piece := Side.all.flatMap (piecesOf d)

theorem boardOf_eq (d : Dimensions) : boardOf d = (pieces d).foldl place (.empty d) := rfl

theorem mem_pieces : q ∈ pieces d ↔ ∃ side, q ∈ piecesOf d side := by
  have both (side : Side) : side ∈ Side.all := by cases side <;> decide
  simp [pieces, both]

/-! The rows of the two sides. -/

theorem homeRow_other (rows : Int) (side : Side) :
    side.other.homeRow rows = rows - 1 - side.homeRow rows := by
  cases side <;> simp [Side.other, Side.homeRow]

theorem secondRow_other (rows : Int) (side : Side) :
    side.other.secondRow rows = rows - 1 - side.secondRow rows := by
  rw [Side.secondRow, Side.secondRow, homeRow_other, Side.advance_other]
  omega

theorem moved_of_mem_piecesOf (listed : q ∈ piecesOf d side) : q.moved = false := by
  obtain ⟨col, kind, _, rfl | rfl⟩ := mem_piecesOf.1 listed <;> rfl

theorem row_of_mem_piecesOf (listed : q ∈ piecesOf d side) :
    q.square.row = side.homeRow d.rows ∨ q.square.row = side.secondRow d.rows := by
  obtain ⟨col, kind, _, rfl | rfl⟩ := mem_piecesOf.1 listed
  · exact .inl rfl
  · exact .inr rfl

/-- Columns tell the pieces of one row apart. -/
theorem nodup_squares_piecesOf (d : Dimensions) (side : Side) :
    ((piecesOf d side).map (·.square)).Nodup := by
  have columns : backRow.zipIdx.Pairwise fun x y => x.2 ≠ y.2 := by decide
  have rows : side.homeRow d.rows ≠ side.secondRow d.rows := by
    cases side <;> simp only [Side.homeRow, Side.secondRow, Side.advance] <;> omega
  rw [piecesOf, piecesOn, List.map_flatMap, List.nodup_flatMap]
  refine ⟨?_, columns.imp ?_⟩
  · rintro ⟨kind, col⟩ _
    simpa [Piece.unmoved] using rows
  · rintro ⟨kind, col⟩ ⟨kind', col'⟩ apart s one other
    simp only [Piece.unmoved, List.map_cons, List.map_nil, List.mem_cons, List.not_mem_nil,
      or_false] at one other
    have same : (col : Int) = col' := by
      rcases one with rfl | rfl <;> rcases other with here | here <;> exact (Square.mk.inj here).2
    exact apart (Int.ofNat_inj.1 same)

theorem nodup_squares (rows : 4 ≤ d.rows) : ((pieces d).map (·.square)).Nodup := by
  have both : (pieces d).map (·.square) =
      (piecesOf d .white).map (·.square) ++ (piecesOf d .black).map (·.square) := by
    simp [pieces, Side.all]
  rw [both]
  refine (nodup_squares_piecesOf d .white).append (nodup_squares_piecesOf d .black) ?_
  intro s white black
  obtain ⟨q, ours, rfl⟩ := List.mem_map.1 white
  obtain ⟨p, theirs, same⟩ := List.mem_map.1 black
  have low := row_of_mem_piecesOf ours
  have high := row_of_mem_piecesOf theirs
  rw [same] at high
  simp only [Side.homeRow, Side.secondRow, Side.advance] at low high
  omega

/-! Placing pieces on different squares. -/

section Placing

variable {placed : List Piece}

/-- Placing pieces one after the other is a run of writes. -/
theorem foldl_place_eq_perform (b : Board) (placed : List Piece) :
    placed.foldl place b = b.perform (placed.map fun q => ⟨q.square, some q⟩) := by
  rw [Board.perform, List.foldl_map]
  rfl

theorem apart_of_nodup {before after : List Piece}
    (apart : ((before ++ q :: after).map (·.square)).Nodup) :
    (∀ p ∈ before, p.square ≠ q.square) ∧ ∀ p ∈ after, p.square ≠ q.square := by
  rw [List.map_append, List.map_cons, List.nodup_middle, List.nodup_cons, ← List.map_append] at apart
  rw [← List.forall_mem_append]
  intro p listed same
  exact apart.1 (List.mem_map.2 ⟨p, listed, same⟩)

theorem pieceOn_place_of_free (inside : ∀ p ∈ placed, d.contains p.square = true)
    (free : ∀ p ∈ placed, p.square ≠ s) : (placed.foldl place (.empty d)).pieceOn s = none := by
  rw [foldl_place_eq_perform, Board.pieceOn_perform_of_untouched (List.forall_mem_map.2 inside)
    (List.forall_mem_map.2 free), Board.pieceOn_empty]

theorem pieceOn_place_of_mem (inside : ∀ p ∈ placed, d.contains p.square = true)
    (apart : (placed.map (·.square)).Nodup) (listed : q ∈ placed) :
    (placed.foldl place (.empty d)).pieceOn q.square = some q := by
  obtain ⟨before, after, rfl⟩ := List.append_of_mem listed
  have last : Board.LastWrite ((before ++ q :: after).map fun p => ⟨p.square, some p⟩)
      ⟨q.square, some q⟩ :=
    ⟨_, _, List.map_append, List.forall_mem_map.2 (apart_of_nodup apart).2⟩
  rw [foldl_place_eq_perform]
  exact last.pieceOn_perform (List.forall_mem_map.2 inside)

theorem pieceOn_place_iff (inside : ∀ p ∈ placed, d.contains p.square = true)
    (apart : (placed.map (·.square)).Nodup) :
    (placed.foldl place (.empty d)).pieceOn s = some q ↔ q ∈ placed ∧ q.square = s := by
  refine ⟨?_, ?_⟩
  · intro on
    by_cases free : ∀ p ∈ placed, p.square ≠ s
    · rw [pieceOn_place_of_free inside free] at on
      cases on
    · simp only [not_forall, not_not] at free
      obtain ⟨p, listed, rfl⟩ := free
      rw [pieceOn_place_of_mem inside apart listed] at on
      obtain rfl := Option.some.inj on
      exact ⟨listed, rfl⟩
  · rintro ⟨listed, rfl⟩
    exact pieceOn_place_of_mem inside apart listed

end Placing

/-! The board that is made. -/

section Made

variable (rows : 4 ≤ d.rows) (cols : d.cols = 8)
include rows cols

theorem inside_of_mem_pieces : ∀ q ∈ pieces d, d.contains q.square = true := by
  intro q listed
  obtain ⟨side, among⟩ := mem_pieces.1 listed
  exact (spec_of_mem_piecesOf rows cols among).1

theorem pieceOn_boardOf : (boardOf d).pieceOn s = some q ↔ q ∈ pieces d ∧ q.square = s :=
  pieceOn_place_iff (inside_of_mem_pieces rows cols) (nodup_squares rows)

theorem isSane_boardOf : (boardOf d).isSane = true := by
  rw [Board.isSane_iff]
  exact fun s q on => ((pieceOn_boardOf rows cols).1 on).2

theorem perm_pieces_boardOf : (boardOf d).pieces.Perm (pieces d) := by
  have sane := isSane_boardOf rows cols
  refine (List.perm_ext_iff_of_nodup (.of_map _ (Board.squares_pieces_nodup sane))
    (.of_map _ (nodup_squares rows))).2 ?_
  intro q
  rw [Board.mem_pieces_iff_pieceOn sane, pieceOn_boardOf rows cols, and_iff_left rfl]

/-- Between the pawns there is nobody. -/
theorem pieceOn_boardOf_middle (above : Side.white.secondRow d.rows < s.row)
    (below : s.row < Side.black.secondRow d.rows) : (boardOf d).pieceOn s = none := by
  refine pieceOn_place_of_free (inside_of_mem_pieces rows cols) ?_
  rintro q listed rfl
  obtain ⟨side, among⟩ := mem_pieces.1 listed
  have row := row_of_mem_piecesOf among
  cases side <;> simp only [Side.homeRow, Side.secondRow, Side.advance] at above below row <;> omega

end Made

/-! The board turned over. -/

theorem turned_mem_piecesOf (listed : q ∈ piecesOf d side) :
    Reflection.ranks.piece d q ∈ piecesOf d side.other := by
  obtain ⟨col, kind, among, rfl | rfl⟩ := mem_piecesOf.1 listed
  · exact mem_piecesOf.2 ⟨col, kind, among, .inl (by rw [homeRow_other]; rfl)⟩
  · exact mem_piecesOf.2 ⟨col, kind, among, .inr (by rw [secondRow_other]; rfl)⟩

theorem turned_mem_pieces (listed : q ∈ pieces d) : Reflection.ranks.piece d q ∈ pieces d := by
  obtain ⟨side, among⟩ := mem_pieces.1 listed
  exact mem_pieces.2 ⟨side.other, turned_mem_piecesOf among⟩

theorem board_ranks_boardOf (rows : 4 ≤ d.rows) (cols : d.cols = 8) (dims : (boardOf d).dims = d) :
    Reflection.ranks.board (boardOf d) = boardOf d := by
  refine Board.ext_pieceOn Reflection.dims_board ?_
  intro s
  apply Option.ext
  intro q
  rw [Reflection.pieceOn_board, dims, Option.map_eq_some_iff]
  simp only [pieceOn_boardOf rows cols]
  refine ⟨?_, ?_⟩
  · rintro ⟨p, ⟨listed, here⟩, rfl⟩
    refine ⟨turned_mem_pieces listed, ?_⟩
    rw [Reflection.square_piece, here, Reflection.square_square]
  · rintro ⟨listed, rfl⟩
    exact ⟨_, ⟨turned_mem_pieces listed, rfl⟩, Reflection.piece_piece q⟩

/-! All of it together. -/

theorem length_piecesOf (d : Dimensions) (side : Side) : (piecesOf d side).length = 16 := rfl

theorem length_pieces (d : Dimensions) : (pieces d).length = 32 := rfl

theorem filter_pieces (d : Dimensions) (side : Side) :
    (pieces d).filter (·.side == side) = piecesOf d side := by
  cases side <;> rfl

/-- A whole and fair setting of the board `b` for a game of dimensions `d`. -/
structure Setting (d : Dimensions) (b : Board) : Prop where
  dims : b.dims = d
  sane : b.isSane = true
  made : b = (pieces d).foldl place (.empty d)
  count : b.pieces.length = 32
  share : ∀ side, (b.piecesOf side).length = 16
  unmoved : ∀ q ∈ b.pieces, q.moved = false
  stands : ∀ s q, b.pieceOn s = some q ↔ q ∈ pieces d ∧ q.square = s
  /-- Whoever is placed next finds the square empty. -/
  free : ∀ before q after, pieces d = before ++ q :: after →
    (before.foldl place (.empty d)).replace q.square (some q) =
      (none, (before ++ [q]).foldl place (.empty d))
  middle : ∀ s : Square, Side.white.secondRow d.rows < s.row → s.row < Side.black.secondRow d.rows →
    b.pieceOn s = none
  turned : Reflection.ranks.board b = b

theorem free_of_pieces (rows : 4 ≤ d.rows) (cols : d.cols = 8) {before after : List Piece}
    (split : pieces d = before ++ q :: after) :
    (before.foldl place (.empty d)).replace q.square (some q) =
      (none, (before ++ [q]).foldl place (.empty d)) := by
  have inside := inside_of_mem_pieces rows cols
  have apart := nodup_squares rows
  rw [split] at inside apart
  obtain ⟨earlier, others⟩ := List.forall_mem_append.1 inside
  have on : (before.foldl place (.empty d)).contains q.square = true := by
    rw [foldl_place_eq_perform, Board.contains_perform]
    exact (List.forall_mem_cons.1 others).1
  rw [Board.replace_of_contains on, pieceOn_place_of_free earlier (apart_of_nodup apart).1,
    List.foldl_append]
  rfl

theorem setting_boardOf (rows : 4 ≤ d.rows) (cols : d.cols = 8) (dims : (boardOf d).dims = d) :
    Setting d (boardOf d) where
  dims := dims
  sane := isSane_boardOf rows cols
  made := boardOf_eq d
  count := (perm_pieces_boardOf rows cols).length_eq.trans (length_pieces d)
  share side := by
    rw [Board.piecesOf, ((perm_pieces_boardOf rows cols).filter _).length_eq, filter_pieces,
      length_piecesOf]
  unmoved q listed := by
    obtain ⟨side, among⟩ := mem_pieces.1 ((perm_pieces_boardOf rows cols).mem_iff.1 listed)
    exact moved_of_mem_piecesOf among
  stands _ _ := pieceOn_boardOf rows cols
  free _ _ _ split := free_of_pieces rows cols split
  middle _ above below := pieceOn_boardOf_middle rows cols above below
  turned := board_ranks_boardOf rows cols dims

/-! Laying it out. -/

/-- Nothing is laid out if one piece is off the board. -/
theorem foldlM_set?_eq_some {b laid : Board} {placed : List Piece} :
    placed.foldlM (fun b p => b.set? p.square (some p)) b = some laid ↔
      (∀ q ∈ placed, b.contains q.square = true) ∧ placed.foldl place b = laid := by
  induction placed generalizing b with
  | nil => simp
  | cons q rest ih =>
      rw [List.foldlM_cons, List.forall_mem_cons, List.foldl_cons, Option.bind_eq_bind, Board.set?]
      by_cases inside : b.contains q.square = true
      · rw [if_pos inside, Option.bind_some, ih]
        simp [inside, place]
      · simp [inside]

theorem layOut?_eq_some {rows : Int} {laid : Board} : layOut? rows (.empty d) = some laid ↔
    (∀ q ∈ Side.all.flatMap (piecesOn rows), d.contains q.square = true) ∧
      (Side.all.flatMap (piecesOn rows)).foldl place (.empty d) = laid :=
  foldlM_set?_eq_some

theorem row_of_mem_piecesOn {rows : Int} (listed : q ∈ piecesOn rows side) :
    q.square.row = side.homeRow rows ∨ q.square.row = side.secondRow rows := by
  simp only [piecesOn, List.mem_flatMap, List.mem_cons, List.not_mem_nil, or_false] at listed
  obtain ⟨_, _, rfl | rfl⟩ := listed
  · exact .inl rfl
  · exact .inr rfl

theorem isHoldable_of_rows (few : 2 * d.rows < UInt32.size) (cols : d.cols = 8) : d.isHoldable = true := by
  have squares : d.squareCount ≤ UInt32.size * 8 := by
    rw [Dimensions.squareCount, cols]
    omega
  exact Capacity.holds_of_le squares (by decide)

/-- Whether there is a starting position is decided before anything is laid out. -/
theorem exists_of_board? {answer : Except Error Board} (made : board? d = some answer) :
    (∃ b, answer = .ok b) ↔ d.cols = 8 ∧ 6 ≤ d.kinds := by
  rw [← check_eq_ok]
  unfold board? at made
  split at made
  · rename_i refused
    obtain rfl := Option.some.inj made
    simp [refused]
  · rename_i checked
    simp only [Option.bind_eq_bind, Option.bind_eq_some_iff] at made
    obtain ⟨_, _, laid, _, same⟩ := made
    exact iff_of_true ⟨laid, (Option.some.inj same).symm⟩ checked

theorem board?_eq_ok_iff {b : Board} : board? d = some (.ok b) ↔ (d.cols = 8 ∧ 6 ≤ d.kinds) ∧
    d.isHoldable = true ∧ layOut? (Survey.ofDimensions d).rows (.empty d) = some b := by
  rw [← check_eq_ok]
  unfold board?
  cases checked : check d with
  | error e => simp
  | ok => by_cases room : d.isHoldable = true <;> simp [Board.empty?, room, Option.bind_eq_some_iff]

theorem board?_of_rows (rows : 4 ≤ d.rows) (few : 2 * d.rows < UInt32.size)
    (suits : d.cols = 8 ∧ 6 ≤ d.kinds) : board? d = some (.ok (boardOf d)) := by
  refine board?_eq_ok_iff.2 ⟨suits, isHoldable_of_rows few suits.1, ?_⟩
  rw [Survey.ofDimensions, coordinateLength_of_lt few]
  exact layOut?_eq_some.2 ⟨inside_of_mem_pieces rows suits.1, rfl⟩

/-- Where the rows outnumber the coordinates, nothing gets to the last of them. -/
theorem rows_of_setting {b : Board} (rows : 4 ≤ d.rows) (made : board? d = some (.ok b))
    (setting : Setting d b) : 2 * d.rows < UInt32.size := by
  by_contra many
  obtain ⟨_, _, laid⟩ := board?_eq_ok_iff.1 made
  obtain ⟨inside, rfl⟩ := layOut?_eq_some.1 laid
  have measured := coordinateLength_lt d.rows
  dsimp only [Survey.ofDimensions] at inside setting
  generalize coordinateLength d.rows = counted at inside measured setting
  have corner : Piece.unmoved ⟨Side.black.homeRow d.rows, (0 : Nat)⟩ .black 1 ∈ pieces d :=
    mem_pieces.2 ⟨.black, mem_piecesOf.2 ⟨0, 1, rfl, .inl rfl⟩⟩
  have stands := (setting.stands _ _).2 ⟨corner, rfl⟩
  rw [pieceOn_place_of_free inside] at stands
  · cases stands
  · intro q listed same
    obtain ⟨side, _, among⟩ := List.mem_flatMap.1 listed
    have row := row_of_mem_piecesOn among
    rw [same] at row
    cases side <;>
      simp only [Piece.unmoved, Side.homeRow, Side.secondRow, Side.advance] at row <;> omega

/-- On any board that can be played on, there is a starting position just if the back row fits and all
its types are known. If the rows have 32-bit coordinates it is whole and fair, and otherwise there is none
that is. -/
theorem starting_board_iff (valid : Dimensions.make d.rows d.cols d.kinds = .ok d) :
    (∀ answer, board? d = some answer → ((∃ b, answer = .ok b) ↔ d.cols = 8 ∧ 6 ≤ d.kinds)) ∧
    (2 * d.rows < UInt32.size → ∃ answer, board? d = some answer ∧
      ∀ b, answer = .ok b → Setting d b ∧ (d.rows = 8 → d.kinds = 6 → b = standardBoard)) ∧
    (d.cols = 8 → 6 ≤ d.kinds →
      ((∃ b, board? d = some (.ok b) ∧ Setting d b) ↔ 2 * d.rows < UInt32.size)) := by
  have rows : 4 ≤ d.rows := (Dimensions.make_eq_ok.1 valid).1
  refine ⟨fun answer => exists_of_board?, ?_, ?_⟩
  · intro few
    by_cases suits : d.cols = 8 ∧ 6 ≤ d.kinds
    · refine ⟨_, board?_of_rows rows few suits, ?_⟩
      intro b same
      obtain rfl := Except.ok.inj same
      refine ⟨setting_boardOf rows suits.1 (valid_boardOf rows suits.1 suits.2).2, ?_⟩
      intro eight six
      have standard : d = .standard := calc
        d = ⟨d.rows, d.cols, d.kinds⟩ := rfl
        _ = ⟨8, 8, 6⟩ := by rw [eight, suits.1, six]
      rw [standard, standardBoard]
    · cases checked : check d with
      | ok => exact (suits (check_eq_ok.1 checked)).elim
      | error e =>
          refine ⟨.error e, ?_, nofun⟩
          rw [board?, checked]
  · intro cols kinds
    constructor
    · rintro ⟨b, made, setting⟩
      exact rows_of_setting rows made setting
    · intro few
      exact ⟨_, board?_of_rows rows few ⟨cols, kinds⟩,
        setting_boardOf rows cols (valid_boardOf rows cols kinds).2⟩

/-- On four rows there is nothing between the pawns. -/
theorem lowest_starting_board :
    let d : Dimensions := ⟨4, 8, 6⟩
    Dimensions.make d.rows d.cols d.kinds = .ok d ∧ 2 * d.rows < UInt32.size ∧
      ∃ b, board? d = some (.ok b) ∧ Setting d b := by
  intro d
  have valid : Dimensions.make d.rows d.cols d.kinds = .ok d := rfl
  have few : 2 * d.rows < UInt32.size := by decide
  exact ⟨valid, few, ((starting_board_iff valid).2.2 rfl (by decide)).2 few⟩

/-- A board with a back row that nothing can hold. -/
theorem no_starting_board :
    let d : Dimensions := ⟨1152921504606846976, 8, 6⟩
    Dimensions.make d.rows d.cols d.kinds = .ok d ∧ board? d = none := by
  refine ⟨rfl, ?_⟩
  rw [board?, check_eq_ok.2 (by decide)]
  rfl

end VariantChess.Opening
