import VariantChess.Proofs.SemiLegal

/-!
Turning a board over. A reflection by ranks exchanges the two ends of the board, and with them the
sides; one by files exchanges left and right and leaves the sides alone. Squares, pieces, boards,
moves, positions and piece types are all turned over in the same way, and turning twice gives them
back. Rules stay as they are, but for a refuge, whose colour of squares changes if the board has an
even number of squares along the turn.
-/

namespace VariantChess

inductive Reflection
  | ranks
  | files
deriving DecidableEq, Repr

/-- The squares of the other colour. -/
def Refuge.opposite : Refuge → Refuge
  | dark => light
  | light => dark
  | both => both

theorem Board.ext_pieceOn {b c : Board} (dims : b.dims = c.dims)
    (on : ∀ s, b.pieceOn s = c.pieceOn s) : b = c := by
  have cells : b.cells.toList = c.cells.toList := by
    rw [cells_toList, cells_toList, dims, funext on]
  obtain ⟨_, _, _⟩ := b
  obtain ⟨_, _, _⟩ := c
  simp_all

namespace Reflection

variable (r : Reflection) (d : Dimensions)

def step : Reflection → Step → Step
  | ranks => Square.flipRow
  | files => Square.flipCol

def square (s : Square) : Square :=
  match r with
  | ranks => ⟨d.rows - 1 - s.row, s.col⟩
  | files => ⟨s.row, d.cols - 1 - s.col⟩

def side : Reflection → Side → Side
  | ranks => Side.other
  | files => id

/-- The number of squares in a line along the turn. -/
def length : Nat :=
  match r with
  | ranks => d.rows
  | files => d.cols

def piece (q : Piece) : Piece := { q with square := r.square d q.square, side := r.side q.side }

def move (m : Move) : Move :=
  ⟨r.piece d m.piece, match m.action with
    | .go s => .go (r.square d s)
    | .swap s => .swap (r.square d s)⟩

def refuge (f : Refuge) : Refuge := if r.length d % 2 = 0 then f.opposite else f

def rule : Rule → Rule
  | .retreat f m => .retreat (r.refuge d f) m
  | other => other

def roster (types : Roster) : Roster := types.map fun t => { t with rule := r.rule d t.rule }

def board (b : Board) : Board :=
  ⟨b.dims, Array.ofFn fun i : Fin b.dims.squareCount =>
    (b.pieceOn (r.square b.dims (b.dims.squareAt i))).map (r.piece b.dims), Array.size_ofFn⟩

def position (p : Position) : Position :=
  ⟨r.board p.board, r.side p.toMove, p.status, p.captured.map (r.piece p.board.dims)⟩

/-! Squares and sides. -/

variable {r d}

@[simp] theorem step_step (s : Step) : r.step (r.step s) = s := by
  cases r with
  | ranks => exact Square.flipRow_flipRow s
  | files => exact Square.flipCol_flipCol s

@[simp] theorem square_square (s : Square) : r.square d (r.square d s) = s := by
  cases r <;> simp [square]

@[simp] theorem side_side (s : Side) : r.side (r.side s) = s := by
  cases r with
  | ranks => exact Side.other_other s
  | files => rfl

@[simp] theorem side_other (s : Side) : r.side s.other = (r.side s).other := by
  cases r <;> rfl

theorem square_injective : Function.Injective (r.square d) :=
  Function.Involutive.injective square_square

@[simp] theorem square_inj {s t : Square} : r.square d s = r.square d t ↔ s = t :=
  square_injective.eq_iff

@[simp] theorem side_inj {s t : Side} : r.side s = r.side t ↔ s = t :=
  (Function.Involutive.injective side_side).eq_iff

theorem square_add (s : Square) (t : Step) : r.square d (s + t) = r.square d s + r.step t := by
  cases r <;> ext <;> simp [square, step, Square.flipRow, Square.flipCol] <;> omega

@[simp] theorem contains_square (s : Square) : d.contains (r.square d s) = d.contains s := by
  rw [Bool.eq_iff_iff, Dimensions.contains_iff, Dimensions.contains_iff]
  cases r <;> simp only [square] <;> omega

theorem row_square_eq_homeRow (s : Side) {t : Square} :
    (r.square d t).row = (r.side s).homeRow d.rows ↔ t.row = s.homeRow d.rows := by
  cases r <;> cases s <;> simp only [square, side, Side.other, Side.homeRow, id] <;> omega

@[simp] theorem refuge_refuge (f : Refuge) : r.refuge d (r.refuge d f) = f := by
  unfold refuge
  split
  · cases f <;> rfl
  · rfl

theorem isDark_square (s : Square) : (r.square d s).isDark =
    if r.length d % 2 = 0 then !s.isDark else s.isDark := by
  unfold Square.isDark
  rw [Bool.eq_iff_iff]
  cases r with
  | ranks => by_cases even : d.rows % 2 = 0 <;> simp [square, length, even] <;> omega
  | files => by_cases even : d.cols % 2 = 0 <;> simp [square, length, even] <;> omega

theorem admits_refuge (f : Refuge) (s : Square) :
    (r.refuge d f).admits (r.square d s) = f.admits s := by
  unfold refuge
  split <;> rename_i parity <;> cases f <;> simp [Refuge.admits, Refuge.opposite, isDark_square, parity]

/-! Pieces. -/

@[simp] theorem kind_piece (q : Piece) : (r.piece d q).kind = q.kind := rfl

@[simp] theorem side_piece (q : Piece) : (r.piece d q).side = r.side q.side := rfl

@[simp] theorem square_piece (q : Piece) : (r.piece d q).square = r.square d q.square := rfl

@[simp] theorem piece_piece (q : Piece) : r.piece d (r.piece d q) = q := by
  simp [piece]

theorem piece_injective : Function.Injective (r.piece d) :=
  Function.Involutive.injective piece_piece

@[simp] theorem piece_inj {q q' : Piece} : r.piece d q = r.piece d q' ↔ q = q' :=
  piece_injective.eq_iff

/-! Boards. -/

section Board

variable {b : Board}

@[simp] theorem dims_board : (r.board b).dims = b.dims := rfl

@[simp] theorem contains_board_square (s : Square) :
    (r.board b).contains (r.square b.dims s) = b.contains s :=
  contains_square s

theorem pieceOn_board (s : Square) :
    (r.board b).pieceOn s = (b.pieceOn (r.square b.dims s)).map (r.piece b.dims) := by
  cases inside : b.contains s with
  | false =>
      have outside : b.contains (r.square b.dims s) = false := (contains_square s).trans inside
      rw [Board.pieceOn_of_not_contains (b := r.board b) inside, Board.pieceOn_of_not_contains outside]
      rfl
  | true =>
      have index := Dimensions.index_lt inside
      rw [Board.pieceOn_of_contains (b := r.board b) inside]
      simp [board, index, Dimensions.squareAt_index inside]

@[simp] theorem pieceOn_board_square (s : Square) :
    (r.board b).pieceOn (r.square b.dims s) = (b.pieceOn s).map (r.piece b.dims) := by
  rw [pieceOn_board, square_square]

/-- A board is turned over if the image of every square holds the image of the piece. -/
theorem eq_board {c : Board} (dims : c.dims = b.dims)
    (on : ∀ s, c.pieceOn (r.square b.dims s) = (b.pieceOn s).map (r.piece b.dims)) :
    c = r.board b := by
  refine Board.ext_pieceOn dims ?_
  intro s
  rw [pieceOn_board, ← on, square_square]

@[simp] theorem board_board : r.board (r.board b) = b := by
  refine (eq_board (b := r.board b) (c := b) rfl ?_).symm
  intro s
  simp [pieceOn_board, Function.comp_def]

@[simp] theorem footing_board (side : Side) (s : Square) :
    (r.board b).footing (r.side side) (r.square b.dims s) = b.footing side s := by
  unfold Board.footing
  rw [pieceOn_board_square]
  cases b.pieceOn s <;> simp

@[simp] theorem isEmpty_board (s : Square) :
    (r.board b).isEmpty (r.square b.dims s) = b.isEmpty s := by
  simp [Board.isEmpty, Board.contains]

theorem isSane_board : (r.board b).isSane = true ↔ b.isSane = true := by
  have turned {b : Board} (sane : b.isSane = true) : (r.board b).isSane = true := by
    rw [Board.isSane_iff]
    intro s q on
    rw [pieceOn_board] at on
    obtain ⟨q, stood, rfl⟩ := Option.map_eq_some_iff.1 on
    rw [square_piece, Board.square_of_pieceOn sane stood, square_square]
  refine ⟨?_, turned⟩
  intro sane
  have back := turned sane
  rwa [board_board] at back

theorem mem_piecesOf_board {q : Piece} {side : Side} :
    r.piece b.dims q ∈ (r.board b).piecesOf (r.side side) ↔ q ∈ b.piecesOf side := by
  simp only [Board.mem_piecesOf, Board.mem_pieces, side_piece, side_inj]
  refine and_congr_left fun _ => ⟨?_, ?_⟩
  · intro ⟨s, on⟩
    exact ⟨r.square b.dims s, by simpa [pieceOn_board] using on⟩
  · intro ⟨s, on⟩
    exact ⟨r.square b.dims s, by simp [on]⟩

end Board

/-! Moves. -/

@[simp] theorem piece_move (m : Move) : (r.move d m).piece = r.piece d m.piece := rfl

@[simp] theorem origin_move (m : Move) : (r.move d m).origin = r.square d m.origin := rfl

@[simp] theorem target_move (m : Move) : (r.move d m).target = r.square d m.target := by
  obtain ⟨_, _ | _⟩ := m <;> rfl

@[simp] theorem move_move (m : Move) : r.move d (r.move d m) = m := by
  obtain ⟨_, _ | _⟩ := m <;> simp [move]

theorem move_injective : Function.Injective (r.move d) :=
  Function.Involutive.injective move_move

/-! Rules and types. -/

@[simp] theorem parts_rule (rule : Rule) : (r.rule d rule).parts = rule.parts := by
  cases rule <;> rfl

@[simp] theorem rule_rule (rule : Rule) : r.rule d (r.rule d rule) = rule := by
  cases rule <;> simp [Reflection.rule]

@[simp] theorem getElem?_roster (types : Roster) (kind : Nat) : (r.roster d types)[kind]? =
    (types[kind]?).map fun t => { t with rule := r.rule d t.rule } := by
  simp [roster]

@[simp] theorem roster_roster (types : Roster) : r.roster d (r.roster d types) = types := by
  simp [roster, Function.comp_def]

/-! Positions. -/

@[simp] theorem board_position (p : Position) : (r.position p).board = r.board p.board := rfl

@[simp] theorem toMove_position (p : Position) : (r.position p).toMove = r.side p.toMove := rfl

@[simp] theorem position_position (p : Position) : r.position (r.position p) = p := by
  simp [position, Function.comp_def]

end Reflection

end VariantChess
