import VariantChess.Proofs.Conservation
import VariantChess.Proofs.Openings
import VariantChess.Proofs.SetupEdits
import VariantChess.Stored.Positions

/-!
Stored boards. A record is accepted exactly if it is the record of a valid board, which can be read off
the list of its cells by division and remainder; otherwise the first check that fails says why. Boards
that are set up, starting boards, and what semi-legal moves make of them are all valid, so they are
accepted back as they were.
-/

namespace VariantChess

namespace Piece

/-- Could the piece stand on this square, of a board with so many types? -/
def Belongs (kinds : Nat) (s : Square) (q : Piece) : Prop := q.square = s ∧ q.kind < kinds

/-- Why a piece could not. The square that it names is looked at first. -/
inductive Misfit (kinds : Nat) (s : Square) (q : Piece) : Error → Prop
  | misplaced (elsewhere : q.square ≠ s) : Misfit kinds s q (.misplacedPiece s q.square)
  | unknownKind (home : q.square = s) (unknown : kinds ≤ q.kind) :
      Misfit kinds s q (.unknownKind q.kind)

theorem misfit_iff {kinds : Nat} {s : Square} {q : Piece} {error : Error} :
    q.Misfit kinds s error ↔ q.square ≠ s ∧ error = .misplacedPiece s q.square ∨
      q.square = s ∧ kinds ≤ q.kind ∧ error = .unknownKind q.kind := by
  refine ⟨?_, ?_⟩
  · rintro (elsewhere | ⟨home, unknown⟩)
    · exact Or.inl ⟨elsewhere, rfl⟩
    · exact Or.inr ⟨home, unknown, rfl⟩
  · rintro (⟨elsewhere, rfl⟩ | ⟨home, unknown, rfl⟩)
    · exact .misplaced elsewhere
    · exact .unknownKind home unknown

end Piece

open Piece

/-- The cell of a square is empty, or holds a piece that belongs there. -/
def InPlace (kinds : Nat) (cell : Square × Option Piece) : Prop :=
  ∀ q, cell.2 = some q → q.Belongs kinds cell.1

def OutOfPlace (kinds : Nat) (cell : Square × Option Piece) (error : Error) : Prop :=
  ∃ q, cell.2 = some q ∧ q.Misfit kinds cell.1 error

/-- The first misfit is reported. -/
theorem checkCells_eq_error {kinds : Nat} {cells : List (Square × Option Piece)} {error : Error} :
    checkCells kinds cells = .error error ↔
      FirstFault (InPlace kinds) (OutOfPlace kinds) cells error := by
  induction cells with
  | nil => exact ⟨nofun, fun faulty => (not_firstFault_nil faulty).elim⟩
  | cons cell rest ih =>
      rw [firstFault_cons, ← ih]
      obtain ⟨s, _ | q⟩ := cell
      · simp [checkCells, InPlace, OutOfPlace]
      · simp only [InPlace, OutOfPlace, Option.some.injEq, forall_eq', exists_eq_left']
        by_cases home : q.square = s
        · by_cases known : q.kind < kinds
          · simp [checkCells, misfit_iff, Belongs, home, known, Nat.not_le.2]
          · simp [checkCells, misfit_iff, Belongs, home, known, Nat.not_lt.1, @eq_comm Error]
        · simp [checkCells, misfit_iff, Belongs, home, @eq_comm Error]

namespace BoardRecord

/-- The cells of a record make a board: they are as many as there are squares, and in row order. -/
structure InOrder (r : BoardRecord) : Prop where
  rows : 4 ≤ r.dims.rows
  cols : 1 ≤ r.dims.cols
  kinds : 1 ≤ r.dims.kinds
  size : r.cells.length = r.dims.rows * r.dims.cols
  home : ∀ (i : Nat) (q : Piece), r.cells[i]? = some (some q) →
    q.square = ⟨↑(i / r.dims.cols), ↑(i % r.dims.cols)⟩
  known : ∀ (i : Nat) (q : Piece), r.cells[i]? = some (some q) → q.kind < r.dims.kinds

/-- Why a record is refused: the first of the checks that fails. -/
inductive Refused (r : BoardRecord) : Error → Prop
  | dimensions (small : ¬ r.dims.Playable) :
      Refused r (.dimensions r.dims.rows r.dims.cols r.dims.kinds)
  | squareCount (playable : r.dims.Playable) (size : r.cells.length ≠ r.dims.rows * r.dims.cols) :
      Refused r (.squareCount (r.dims.rows * r.dims.cols) r.cells.length)
  | cell {i : Nat} {q : Piece} {error : Error} (playable : r.dims.Playable)
      (size : r.cells.length = r.dims.rows * r.dims.cols) (here : r.cells[i]? = some (some q))
      (misfit : q.Misfit r.dims.kinds (r.dims.squareAt i) error)
      (before : ∀ j < i, ∀ p : Piece, r.cells[j]? = some (some p) →
        p.Belongs r.dims.kinds (r.dims.squareAt j)) : Refused r error

variable {r : BoardRecord} {b : Board} {error : Error}

/-- With the right number of cells a record is the record of a board. -/
theorem exists_ofBoard_eq (size : r.cells.length = r.dims.squareCount) : ∃ b, ofBoard b = r :=
  ⟨⟨r.dims, r.cells.toArray, size⟩, rfl⟩

/-! The three stages of the check. -/

theorem board_of_not_playable (small : ¬ r.dims.Playable) :
    r.board = .error (.dimensions r.dims.rows r.dims.cols r.dims.kinds) := by
  rw [board, Board.ofCells, Dimensions.make_eq_error small]
  rfl

theorem board_of_size_ne (playable : r.dims.Playable)
    (size : r.cells.length ≠ r.dims.squareCount) :
    r.board = .error (.squareCount r.dims.squareCount r.cells.length) := by
  rw [board, Board.ofCells, Dimensions.make_eq_ok.2 playable]
  exact dif_neg size

theorem board_ofBoard (playable : b.dims.Playable) : (ofBoard b).board =
    (checkCells b.dims.kinds (b.dims.squares.zip b.cells.toList)).map fun _ => b :=
  Board.ofCells_of_make (Dimensions.make_eq_ok.2 playable)

/-- A record is accepted as the valid board that it is the record of. -/
theorem board_eq_ok : r.board = .ok b ↔ ofBoard b = r ∧ b.Valid := by
  refine ⟨?_, ?_⟩
  · intro accepted
    by_cases playable : r.dims.Playable
    · by_cases size : r.cells.length = r.dims.squareCount
      · obtain ⟨c, rfl⟩ := exists_ofBoard_eq size
        obtain ⟨_, _, rfl⟩ := map_eq_ok.1 (board_ofBoard playable ▸ accepted)
        exact ⟨rfl, Board.ofCells_eq_ok.1 accepted⟩
      · rw [board_of_size_ne playable size] at accepted
        cases accepted
    · rw [board_of_not_playable playable] at accepted
      cases accepted
  · rintro ⟨rfl, valid⟩
    exact Board.ofCells_eq_ok.2 valid

/-! The cells of a board, by their place in the list. -/

theorem getElem?_cells_squareAt {i : Nat} (inside : i < b.dims.squareCount) :
    (ofBoard b).cells[i]? = some (b.pieceOn (b.dims.squareAt i)) := by
  rw [ofBoard, Board.cells_toList, Dimensions.squares_eq, List.getElem?_map, List.getElem?_map,
    List.getElem?_range inside]
  rfl

theorem getElem?_cells_index {s : Square} (inside : b.contains s = true) :
    (ofBoard b).cells[b.dims.index s]? = some (b.pieceOn s) := by
  rw [getElem?_cells_squareAt (Dimensions.index_lt inside), Dimensions.squareAt_index inside]

theorem getElem?_cells_eq_some {i : Nat} {q : Piece} : (ofBoard b).cells[i]? = some (some q) ↔
    i < b.dims.squareCount ∧ b.pieceOn (b.dims.squareAt i) = some q := by
  by_cases inside : i < b.dims.squareCount
  · simp [getElem?_cells_squareAt, inside]
  · have past : (ofBoard b).cells[i]? = none := by
      rw [List.getElem?_eq_none_iff]
      simpa [ofBoard, b.size_cells] using inside
    simp [past, inside]

theorem inOrder_ofBoard : (ofBoard b).InOrder ↔ b.Valid := by
  refine ⟨?_, ?_⟩
  · intro order
    have cell {s : Square} {q : Piece} (on : b.pieceOn s = some q) :
        (ofBoard b).cells[b.dims.index s]? = some (some q) := by
      rw [getElem?_cells_index (Board.contains_of_pieceOn on), on]
    refine ⟨order.rows, order.cols, order.kinds, Board.isSane_iff.2 ?_, ?_⟩
    · intro s q on
      have home : q.square = b.dims.squareAt (b.dims.index s) := order.home _ q (cell on)
      rw [home, Dimensions.squareAt_index (Board.contains_of_pieceOn on)]
    · intro q listed
      obtain ⟨s, on⟩ := Board.mem_pieces.1 listed
      exact order.known _ q (cell on)
  · intro valid
    refine ⟨valid.rows, valid.cols, valid.kinds, b.size_cells, ?_, ?_⟩
    · intro i q held
      exact Board.square_of_pieceOn valid.sane (getElem?_cells_eq_some.1 held).2
    · intro i q held
      exact valid.known q (Board.mem_pieces.2 ⟨_, (getElem?_cells_eq_some.1 held).2⟩)

theorem exists_board_iff : (∃ b, r.board = .ok b) ↔ r.InOrder := by
  refine ⟨?_, ?_⟩
  · rintro ⟨b, accepted⟩
    obtain ⟨rfl, valid⟩ := board_eq_ok.1 accepted
    exact inOrder_ofBoard.2 valid
  · intro order
    obtain ⟨b, rfl⟩ := exists_ofBoard_eq order.size
    exact ⟨b, board_eq_ok.2 ⟨rfl, inOrder_ofBoard.1 order⟩⟩

theorem getElem?_zip_squares {d : Dimensions} {cells : List (Option Piece)}
    (size : cells.length = d.squareCount) {i : Nat} {cell : Square × Option Piece} :
    (d.squares.zip cells)[i]? = some cell ↔ cell.1 = d.squareAt i ∧ cells[i]? = some cell.2 := by
  rw [List.getElem?_zip_eq_some, Dimensions.squares_eq, List.getElem?_map]
  by_cases inside : i < d.squareCount
  · rw [List.getElem?_range inside, Option.map_some, Option.some_inj, eq_comm]
  · have past : cells[i]? = none := List.getElem?_eq_none (by omega)
    simp [past]

/-- Once the dimensions and the number of cells are good, the first piece out of place is reported. -/
theorem board_eq_error_of_size (playable : r.dims.Playable)
    (size : r.cells.length = r.dims.squareCount) : r.board = .error error ↔
      FirstFault (InPlace r.dims.kinds) (OutOfPlace r.dims.kinds)
        (r.dims.squares.zip r.cells) error := by
  obtain ⟨b, rfl⟩ := exists_ofBoard_eq size
  rw [board_ofBoard playable, ← checkCells_eq_error]
  change _ ↔ checkCells b.dims.kinds (b.dims.squares.zip b.cells.toList) = .error error
  cases checkCells b.dims.kinds (b.dims.squares.zip b.cells.toList) <;> simp [Except.map]

theorem firstFault_zip_squares {d : Dimensions} {cells : List (Option Piece)}
    (size : cells.length = d.squareCount) :
    FirstFault (InPlace d.kinds) (OutOfPlace d.kinds) (d.squares.zip cells) error ↔
      ∃ (i : Nat) (q : Piece), cells[i]? = some (some q) ∧
        q.Misfit d.kinds (d.squareAt i) error ∧
        ∀ j < i, ∀ p : Piece, cells[j]? = some (some p) → p.Belongs d.kinds (d.squareAt j) := by
  refine ⟨?_, ?_⟩
  · rintro ⟨i, ⟨s, _⟩, here, ⟨q, rfl, misfit⟩, before⟩
    obtain ⟨rfl, held⟩ := (getElem?_zip_squares size).1 here
    refine ⟨i, q, held, misfit, ?_⟩
    intro j earlier p stands
    exact before j earlier (d.squareAt j, some p) ((getElem?_zip_squares size).2 ⟨rfl, stands⟩) p rfl
  · rintro ⟨i, q, held, misfit, before⟩
    refine ⟨i, (d.squareAt i, some q), (getElem?_zip_squares size).2 ⟨rfl, held⟩,
      ⟨q, rfl, misfit⟩, ?_⟩
    rintro j earlier ⟨t, _⟩ at_j p rfl
    obtain ⟨rfl, stands⟩ := (getElem?_zip_squares size).1 at_j
    exact before j earlier p stands

theorem board_eq_error : r.board = .error error ↔ r.Refused error := by
  refine ⟨?_, ?_⟩
  · intro refused
    by_cases playable : r.dims.Playable
    · by_cases size : r.cells.length = r.dims.squareCount
      · rw [board_eq_error_of_size playable size, firstFault_zip_squares size] at refused
        obtain ⟨i, q, held, misfit, before⟩ := refused
        exact .cell playable size held misfit before
      · rw [board_of_size_ne playable size] at refused
        rw [← Except.error.inj refused]
        exact .squareCount playable size
    · rw [board_of_not_playable playable] at refused
      rw [← Except.error.inj refused]
      exact .dimensions playable
  · rintro (small | ⟨playable, size⟩ | ⟨playable, size, held, misfit, before⟩)
    · exact board_of_not_playable small
    · exact board_of_size_ne playable size
    · rw [board_eq_error_of_size playable size, firstFault_zip_squares size]
      exact ⟨_, _, held, misfit, before⟩

end BoardRecord

/-! Boards that are made here. -/

namespace Board

/-- What is set up or started with, and what semi-legal moves make of it. -/
inductive Made : Board → Prop
  | setUp {u : Setup} {b : Board}
      (shape : Dimensions.make u.dims.rows u.dims.cols u.dims.kinds = .ok u.dims)
      (made : u.board = .ok b) : Made b
  | opening {d : Dimensions} {b : Board} (shape : Dimensions.make d.rows d.cols d.kinds = .ok d)
      (made : Opening.board d = .ok b) : Made b
  | played {types : Roster} {p : Position} {m : Move} (made : Made p.board)
      (listed : m ∈ p.semiLegal types) : Made (p.after m).board

theorem Made.valid {b : Board} (made : b.Made) : b.Valid := by
  induction made with
  | setUp shape made =>
      refine Setup.foldlM_put_induction (valid_empty (Dimensions.make_eq_ok.1 shape)) ?_ made
      exact fun _ _ valid suits => valid.set suits.1 suits.2
  | opening shape made => exact Opening.valid_of_board (Dimensions.make_eq_ok.1 shape) made
  | played _ listed valid =>
      exact Position.valid_after valid (Position.fits_of_mem_semiLegal valid.sane listed)

end Board

namespace BoardRecord

/-- A stored board is accepted exactly if its cells are in order, and then it is the board stored.
Otherwise the first check that fails is reported. Boards made here are accepted back as they were. -/
theorem stored_board_checked :
    (∀ r : BoardRecord, ((∃ b, r.board = .ok b) ↔ r.InOrder) ∧
      (∀ b, r.board = .ok b → ofBoard b = r ∧ b.isSane = true ∧
        ∀ row col : Nat, row < r.dims.rows → col < r.dims.cols →
          r.cells[row * r.dims.cols + col]? = some (b.pieceOn ⟨row, col⟩)) ∧
      ∀ error, r.board = .error error ↔ r.Refused error) ∧
    ∀ b : Board, b.Made → (ofBoard b).board = .ok b := by
  refine ⟨?_, fun b made => Board.ofCells_eq_ok.2 made.valid⟩
  intro r
  refine ⟨exists_board_iff, ?_, fun _ => board_eq_error⟩
  intro b accepted
  obtain ⟨rfl, valid⟩ := board_eq_ok.1 accepted
  refine ⟨rfl, valid.sane, ?_⟩
  intro row col low left
  have inside : b.contains ⟨row, col⟩ = true :=
    Dimensions.contains_iff.2 ⟨Int.natCast_nonneg row, Int.natCast_nonneg col,
      Int.ofNat_lt.2 low, Int.ofNat_lt.2 left⟩
  exact getElem?_cells_index inside

end BoardRecord

/-! White's king and rook have changed places; and a list of cells in which two pieces are wrong. -/

namespace Endgame

def shuffled : BoardRecord :=
  ⟨⟨4, 1, 1⟩, [none, some (.unmoved ⟨0, 0⟩ .white 3), some (.unmoved ⟨2, 0⟩ .black 2), none]⟩

open BoardRecord in
theorem exchanged_and_shuffled :
    exchange ∈ initial.semiLegal types ∧
    (ofBoard (initial.after exchange).board).board = .ok (initial.after exchange).board ∧
    (ofBoard initial.board).InOrder ∧ ¬ shuffled.InOrder ∧
    shuffled.board = .error (.misplacedPiece ⟨1, 0⟩ ⟨0, 0⟩) := by
  have listed : exchange ∈ initial.semiLegal types := by decide +kernel
  have made : initial.board.Made := .setUp (u := Setup.ofPosition initial) rfl rfl
  obtain ⟨checked, returned⟩ := stored_board_checked
  have restored : (ofBoard initial.board).board = .ok initial.board := rfl
  have refused : shuffled.board = .error (.misplacedPiece ⟨1, 0⟩ ⟨0, 0⟩) := by
    refine ((checked shuffled).2.2 _).2 (.cell (i := 1) (by decide) rfl rfl (.misplaced ?_) ?_)
    · decide
    · intro j earlier p held
      obtain rfl : j = 0 := by omega
      cases held
  refine ⟨listed, returned _ (made.played listed), (checked _).1.1 ⟨_, restored⟩, ?_, refused⟩
  intro order
  obtain ⟨b, accepted⟩ := (checked shuffled).1.2 order
  rw [refused] at accepted
  cases accepted

end Endgame

end VariantChess
