import Mathlib.Data.Set.Function
import Mathlib.Order.Interval.Set.Defs
import VariantChess.Dimensions.Survey
import VariantChess.Proofs.Validity

/-!
Boards as maps from squares to pieces. The squares of a board are numbered row by row and without a gap, so
that a list with a cell for each number has just one for each square. Whatever was written to an empty
board, one square at a time, every square shows the piece that was put on it last, if nothing was taken off
it since, and each write hands out what its square showed before.
-/

namespace VariantChess

/-! The numbers of the squares. -/

namespace Dimensions

variable {d : Dimensions}

theorem map_index_squares (d : Dimensions) : d.squares.map d.index = List.range d.squareCount := by
  have numbered : d.index ∘ d.squareAt = id := funext d.index_squareAt
  rw [squares_eq, List.map_map, numbered, List.map_id]

/-- The squares are listed in the order of their numbers. -/
theorem pairwise_squares (d : Dimensions) : d.squares.Pairwise fun s t => d.index s < d.index t := by
  rw [← List.pairwise_map (R := (· < ·)), map_index_squares]
  exact List.pairwise_lt_range

theorem bijOn_index (d : Dimensions) :
    Set.BijOn d.index {s | d.contains s = true} (Set.Iio d.squareCount) := by
  refine ⟨fun s inside => index_lt inside, fun s hs t ht => (index_inj hs ht).1, ?_⟩
  intro i inside
  exact ⟨d.squareAt i, contains_squareAt inside, index_squareAt d i⟩

/-- Sides that fit in 32 bits have no more squares than 64 bits can count. -/
theorem Addressable.squareCount_lt (addressable : d.Addressable) : d.squareCount < UInt64.size := by
  obtain ⟨rows, cols⟩ := addressable
  have size : UInt32.size * UInt32.size = UInt64.size := by decide
  calc d.rows * d.cols < UInt32.size * UInt32.size := Nat.mul_lt_mul'' (by omega) (by omega)
    _ = UInt64.size := size

/-- The first squares of a grid lie in its first rows, and in its first columns. -/
theorem take_grid (limit rows cols : Nat) :
    (Square.grid (min limit rows) (min limit cols)).take limit = (Square.grid rows cols).take limit := by
  rw [Square.grid_eq, Square.grid_eq, ← List.map_take, ← List.map_take, List.take_range, List.take_range]
  rcases Nat.eq_zero_or_pos limit with rfl | some_limit
  · rw [Nat.zero_min, Nat.zero_min]
    rfl
  rcases Nat.eq_zero_or_pos rows with rfl | some_row
  · simp
  by_cases narrow : cols ≤ limit
  · rw [Nat.min_eq_right narrow]
    congr 2
    by_cases low : rows ≤ limit
    · rw [Nat.min_eq_right low]
    · rcases Nat.eq_zero_or_pos cols with rfl | some_col
      · rfl
      · rw [Nat.min_eq_left (Nat.le_of_not_le low), Nat.min_eq_left (Nat.le_mul_of_pos_right _ some_col),
          Nat.min_eq_left ((Nat.le_of_not_le low).trans (Nat.le_mul_of_pos_right _ some_col))]
  · -- the first row alone has enough of them
    have wide : limit < cols := Nat.lt_of_not_le narrow
    have some_rows : 0 < min limit rows := Nat.lt_min.2 ⟨some_limit, some_row⟩
    rw [Nat.min_eq_left wide.le, Nat.min_eq_left (Nat.le_mul_of_pos_left _ some_rows),
      Nat.min_eq_left (wide.le.trans (Nat.le_mul_of_pos_left _ some_row))]
    refine List.map_congr_left ?_
    intro i listed
    have inside : i < limit := List.mem_range.1 listed
    rw [Nat.div_eq_of_lt inside, Nat.mod_eq_of_lt inside, Nat.div_eq_of_lt (inside.trans wide),
      Nat.mod_eq_of_lt (inside.trans wide)]

/-- A survey lists these squares, as many as are asked for. -/
theorem Addressable.squares_survey (addressable : d.Addressable) (limit : Nat) :
    (Survey.ofDimensions d).squares limit = d.squares.take limit := by
  obtain ⟨rows, cols⟩ := addressable
  rw [Survey.squares, Survey.ofDimensions, coordinateLength_of_lt rows, coordinateLength_of_lt cols,
    Int.toNat_natCast, Int.toNat_natCast, take_grid, squares]

end Dimensions

/-! Writing to a board. -/

namespace Board

/-- One write to a board: a square and what it is to hold. A removal writes that it holds nothing. -/
structure Write where
  square : Square
  piece : Option Piece
deriving DecidableEq, Repr

def perform (b : Board) (writes : List Write) : Board :=
  writes.foldl (fun b w => b.set w.square w.piece) b

@[simp] theorem perform_nil (b : Board) : b.perform [] = b := rfl

@[simp] theorem perform_cons (b : Board) (w : Write) (rest : List Write) :
    b.perform (w :: rest) = (b.set w.square w.piece).perform rest := rfl

theorem perform_append (b : Board) (before after : List Write) :
    b.perform (before ++ after) = (b.perform before).perform after :=
  List.foldl_append

/-- No later write is to the same square. -/
def LastWrite (writes : List Write) (w : Write) : Prop :=
  ∃ before after, writes = before ++ w :: after ∧ ∀ later ∈ after, later.square ≠ w.square

variable {b : Board} {writes : List Write} {s : Square}

@[simp] theorem dims_perform (b : Board) (writes : List Write) : (b.perform writes).dims = b.dims := by
  induction writes generalizing b with
  | nil => rfl
  | cons w rest ih => exact ih (b.set w.square w.piece)

@[simp] theorem contains_perform (b : Board) (writes : List Write) (s : Square) :
    (b.perform writes).contains s = b.contains s := by
  rw [contains, contains, dims_perform]

theorem isSane_perform (sane : b.isSane = true) (inside : ∀ w ∈ writes, b.contains w.square = true) :
    (b.perform writes).isSane = true := by
  induction writes generalizing b with
  | nil => exact sane
  | cons w rest ih =>
      obtain ⟨first, others⟩ := List.forall_mem_cons.1 inside
      exact ih (isSane_set sane first w.piece) others

theorem pieceOn_perform_of_untouched (inside : ∀ w ∈ writes, b.contains w.square = true)
    (untouched : ∀ w ∈ writes, w.square ≠ s) : (b.perform writes).pieceOn s = b.pieceOn s := by
  induction writes generalizing b with
  | nil => rfl
  | cons w rest ih =>
      obtain ⟨first, others⟩ := List.forall_mem_cons.1 inside
      obtain ⟨apart, elsewhere⟩ := List.forall_mem_cons.1 untouched
      have later : ((b.set w.square w.piece).perform rest).pieceOn s =
          (b.set w.square w.piece).pieceOn s := ih others elsewhere
      rw [perform_cons, later, pieceOn_set first, if_neg apart.symm]

theorem LastWrite.pieceOn_perform {w : Write} (last : LastWrite writes w)
    (inside : ∀ w ∈ writes, b.contains w.square = true) :
    (b.perform writes).pieceOn w.square = w.piece.map (·.placedAt w.square) := by
  obtain ⟨before, after, rfl, untouched⟩ := last
  obtain ⟨_, rest⟩ := List.forall_mem_append.1 inside
  obtain ⟨here, later⟩ := List.forall_mem_cons.1 rest
  have on : (b.perform before).contains w.square = true := by rwa [contains_perform]
  rw [perform_append, perform_cons, pieceOn_perform_of_untouched (by simpa using later) untouched,
    pieceOn_set on, if_pos rfl]

/-- The pieces are listed in the order of their squares, so that none is listed twice. -/
theorem pairwise_pieces (sane : b.isSane = true) :
    (b.pieces.map fun q => b.dims.index q.square).Pairwise (· < ·) := by
  rw [List.pairwise_map, pieces_eq_filterMap]
  refine b.dims.pairwise_squares.filterMap _ ?_
  intro s t before q on_s p on_t
  rwa [square_of_pieceOn sane on_s, square_of_pieceOn sane on_t]

/-- Every square of the board has one number, and a square shows what was written to it last. What the
pieces are and how they are ordered can be read off the squares, and so can what a write hands out. -/
theorem shows_writes (d : Dimensions) {writes : List Write}
    (inside : ∀ w ∈ writes, d.contains w.square = true) :
    let b := (empty d).perform writes
    (Set.BijOn d.index {s | d.contains s = true} (Set.Iio d.squareCount) ∧
      (∀ s, s ∈ d.squares ↔ d.contains s = true) ∧
      d.squares.map d.index = List.range d.squareCount ∧
      (d.Addressable → d.squareCount < UInt64.size ∧
        ∀ limit, (Survey.ofDimensions d).squares limit = d.squares.take limit)) ∧
    (∀ w, LastWrite writes w → b.pieceOn w.square = w.piece.map (·.placedAt w.square)) ∧
    (∀ s, (∀ w ∈ writes, w.square ≠ s) → b.pieceOn s = none) ∧
    (∀ s, d.contains s = false → b.pieceOn s = none) ∧
    (∀ before w after, writes = before ++ w :: after →
      let c := (empty d).perform before
      c.replace w.square w.piece = (c.pieceOn w.square, (empty d).perform (before ++ [w])) ∧
      (w.piece = none → (empty d).perform (before ++ [w]) = c.remove w.square)) ∧
    b.isSane = true ∧
    b.pieces = d.squares.filterMap b.pieceOn ∧
    (b.pieces.map fun q => d.index q.square).Pairwise (· < ·) := by
  intro b
  have dims : b.dims = d := dims_perform (empty d) writes
  have sane : b.isSane = true := isSane_perform (isSane_empty d) inside
  refine ⟨⟨d.bijOn_index, fun _ => Dimensions.mem_squares, d.map_index_squares, ?_⟩, ?_, ?_, ?_, ?_,
    sane, dims ▸ pieces_eq_filterMap b, dims ▸ pairwise_pieces sane⟩
  · exact fun addressable => ⟨addressable.squareCount_lt, addressable.squares_survey⟩
  · exact fun w last => last.pieceOn_perform inside
  · intro s untouched
    exact (pieceOn_perform_of_untouched inside untouched).trans (pieceOn_empty d s)
  · intro s outside
    refine pieceOn_of_not_contains ?_
    rwa [contains, dims]
  · intro before w after split
    have on : ((empty d).perform before).contains w.square = true := by
      rw [contains_perform]
      exact inside w (split ▸ List.mem_append_right before List.mem_cons_self)
    rw [perform_append]
    refine ⟨replace_of_contains on w.piece, ?_⟩
    intro nothing
    rw [perform_cons, nothing]
    rfl

/-- A piece that names another square is put down twice, the first time in place of nothing, and then in
place of a piece; from where it was first it is taken off again. -/
def stray : Piece := .unmoved ⟨3, 0⟩ .black 2

def rewrites : List Write :=
  [⟨⟨1, 2⟩, some (.unmoved ⟨1, 2⟩ .white 4)⟩, ⟨⟨0, 1⟩, some stray⟩, ⟨⟨1, 2⟩, some stray⟩, ⟨⟨0, 1⟩, none⟩]

theorem rewritten :
    let d : Dimensions := ⟨4, 3, 5⟩
    (∀ w ∈ rewrites, d.contains w.square = true) ∧
    ((empty d).perform rewrites).pieceOn ⟨1, 2⟩ = some (.unmoved ⟨1, 2⟩ .black 2) ∧
    ((empty d).perform rewrites).pieceOn ⟨0, 1⟩ = none ∧
    (((empty d).perform (rewrites.take 3)).replace ⟨0, 1⟩ none).1 = some (.unmoved ⟨0, 1⟩ .black 2) := by
  intro d
  have inside : ∀ w ∈ rewrites, d.contains w.square = true := by decide
  obtain ⟨_, last, _, _, replies, _⟩ := shows_writes d inside
  have put : LastWrite rewrites ⟨⟨1, 2⟩, some stray⟩ :=
    ⟨rewrites.take 2, rewrites.drop 3, rfl, by decide⟩
  have taken : LastWrite rewrites ⟨⟨0, 1⟩, none⟩ := ⟨rewrites.take 3, [], rfl, by decide⟩
  have reply := (replies (rewrites.take 3) ⟨⟨0, 1⟩, none⟩ [] rfl).1
  refine ⟨inside, last _ put, last _ taken, ?_⟩
  rw [reply]
  decide

end Board

end VariantChess
