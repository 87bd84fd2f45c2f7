import VariantChess.Error

/-!
The shape of a game: how many rows and columns its board has, and how many piece types it uses.
Squares on the board are numbered row by row, and listed in that order.
-/

namespace VariantChess

structure Dimensions where
  rows : Nat
  cols : Nat
  kinds : Nat
deriving DecidableEq, Repr, Inhabited

/-- The square in the middle of a grid, rounded towards White and the `a` file. -/
def Square.middle (rows cols : Int) : Square := ⟨(rows - 1).tdiv 2, (cols - 1).tdiv 2⟩

/-- The squares of a grid, row by row. -/
def Square.grid (rows cols : Nat) : List Square :=
  (List.range rows).flatMap fun (row : Nat) => (List.range cols).map fun (col : Nat) => ⟨row, col⟩

/-- Squares that are counted through are found by division. -/
theorem Square.grid_eq (rows cols : Nat) : grid rows cols =
    (List.range (rows * cols)).map fun (i : Nat) => (⟨↑(i / cols), ↑(i % cols)⟩ : Square) := by
  induction rows with
  | zero => simp [grid]
  | succ rows ih =>
    have last : grid (rows + 1) cols =
        grid rows cols ++ (List.range cols).map fun (col : Nat) => (⟨rows, col⟩ : Square) := by
      simp [grid, List.range_succ]
    rw [last, ih, Nat.succ_mul, List.range_add, List.map_append, List.map_map]
    congr 1
    refine List.map_congr_left ?_
    intro col listed
    have inside : col < cols := List.mem_range.1 listed
    have row : (rows * cols + col) / cols = rows := by
      rw [Nat.mul_comm, Nat.mul_add_div (by omega), Nat.div_eq_of_lt inside, Nat.add_zero]
    have rest : (rows * cols + col) % cols = col := by
      rw [Nat.mul_comm, Nat.mul_add_mod, Nat.mod_eq_of_lt inside]
    simp only [Function.comp_apply, row, rest]

namespace Dimensions

def standard : Dimensions := ⟨8, 8, 6⟩

/-- Each side needs two rows of its own, and there must be something to place on them. -/
def make (rows cols kinds : Nat) : Except Error Dimensions :=
  if rows < 4 || cols < 1 || kinds < 1 then .error (.dimensions rows cols kinds)
  else .ok ⟨rows, cols, kinds⟩

def squareCount (d : Dimensions) : Nat := d.rows * d.cols

@[inline] def contains (d : Dimensions) (s : Square) : Bool :=
  0 ≤ s.row && 0 ≤ s.col && s.row < d.rows && s.col < d.cols

theorem contains_iff {d : Dimensions} {s : Square} :
    d.contains s = true ↔ 0 ≤ s.row ∧ 0 ≤ s.col ∧ s.row < d.rows ∧ s.col < d.cols := by
  simp [contains, and_assoc]

/-- The longest straight slide that stays on a board with squares. -/
def reach (d : Dimensions) : Nat := max d.rows d.cols - 1

/-- The number of a square on the board. -/
@[inline] def index (d : Dimensions) (s : Square) : Nat := s.row.toNat * d.cols + s.col.toNat

def squareAt (d : Dimensions) (i : Nat) : Square := ⟨↑(i / d.cols), ↑(i % d.cols)⟩

def squares (d : Dimensions) : List Square := Square.grid d.rows d.cols

theorem squares_eq (d : Dimensions) : d.squares = (List.range d.squareCount).map d.squareAt :=
  Square.grid_eq d.rows d.cols

/-- The last square in row order, if there is any. -/
def lastSquare? (d : Dimensions) : Option Square :=
  if d.squareCount = 0 then none else some (d.squareAt (d.squareCount - 1))

@[simp] theorem length_squares (d : Dimensions) : d.squares.length = d.squareCount := by
  simp [squares_eq]

theorem index_lt {d : Dimensions} {s : Square} (h : d.contains s = true) :
    d.index s < d.squareCount := by
  obtain ⟨_, _, _, _⟩ := contains_iff.1 h
  have row : s.row.toNat < d.rows := by omega
  have col : s.col.toNat < d.cols := by omega
  calc s.row.toNat * d.cols + s.col.toNat
      < s.row.toNat * d.cols + d.cols := Nat.add_lt_add_left col _
    _ = (s.row.toNat + 1) * d.cols := (Nat.succ_mul _ _).symm
    _ ≤ d.rows * d.cols := Nat.mul_le_mul_right _ row

theorem squareAt_index {d : Dimensions} {s : Square} (h : d.contains s = true) :
    d.squareAt (d.index s) = s := by
  obtain ⟨row_nonneg, col_nonneg, _, _⟩ := contains_iff.1 h
  have col : s.col.toNat < d.cols := by omega
  have positive : 0 < d.cols := by omega
  have row : (s.row.toNat * d.cols + s.col.toNat) / d.cols = s.row.toNat := by
    rw [Nat.mul_comm, Nat.mul_add_div positive, Nat.div_eq_of_lt col, Nat.add_zero]
  have rest : (s.row.toNat * d.cols + s.col.toNat) % d.cols = s.col.toNat := by
    rw [Nat.mul_comm, Nat.mul_add_mod, Nat.mod_eq_of_lt col]
  rw [squareAt, index, row, rest, Int.toNat_of_nonneg row_nonneg, Int.toNat_of_nonneg col_nonneg]

theorem index_inj {d : Dimensions} {s t : Square} (hs : d.contains s = true)
    (ht : d.contains t = true) : d.index s = d.index t ↔ s = t := by
  refine ⟨fun h => ?_, fun h => h ▸ rfl⟩
  rw [← squareAt_index hs, h, squareAt_index ht]

theorem index_squareAt (d : Dimensions) (i : Nat) : d.index (d.squareAt i) = i := by
  rw [index, squareAt, Int.toNat_natCast, Int.toNat_natCast, Nat.mul_comm]
  exact Nat.div_add_mod i d.cols

theorem contains_squareAt {d : Dimensions} {i : Nat} (h : i < d.squareCount) :
    d.contains (d.squareAt i) = true := by
  have positive : 0 < d.cols := by
    rcases Nat.eq_zero_or_pos d.cols with zero | positive
    · simp [squareCount, zero] at h
    · exact positive
  have row : i / d.cols < d.rows := Nat.div_lt_of_lt_mul (by rwa [Nat.mul_comm])
  have col : i % d.cols < d.cols := Nat.mod_lt _ positive
  exact contains_iff.2
    ⟨Int.natCast_nonneg _, Int.natCast_nonneg _, Int.ofNat_lt.2 row, Int.ofNat_lt.2 col⟩

def center (d : Dimensions) : Square := Square.middle d.rows d.cols

/-- Could a piece somewhere on the board make this step and stay on it? -/
def admits (d : Dimensions) (s : Step) : Bool :=
  s.row.natAbs < d.rows && s.col.natAbs < d.cols

end Dimensions

end VariantChess
