import VariantChess.Decimal.Natural

/-!
Squares of the plane, by row and column. Row 0 is White's home row and column 0 the `a` file. The
same pair also serves as a step, the displacement from one square to another. A square on one of
the first 26 files of a non-negative row is written by letter and rank, any other as a pair of
numbers.
-/

namespace VariantChess

structure Square where
  row : Int
  col : Int
deriving DecidableEq, Repr, Inhabited

abbrev Step := Square

/-- The steps of one journey, in order. -/
abbrev Route := List Step

namespace Square

instance : Add Square := ⟨fun a b => ⟨a.row + b.row, a.col + b.col⟩⟩

instance : Neg Square := ⟨fun a => ⟨-a.row, -a.col⟩⟩

@[simp] theorem add_row (a b : Square) : (a + b).row = a.row + b.row := rfl

@[simp] theorem add_col (a b : Square) : (a + b).col = a.col + b.col := rfl

@[simp] theorem neg_row (a : Square) : (-a).row = -a.row := rfl

@[simp] theorem neg_col (a : Square) : (-a).col = -a.col := rfl

def scale (a : Square) (k : Int) : Square := ⟨a.row * k, a.col * k⟩

/-- The step of the other side: the same files, the ranks the other way. -/
def flipRow (a : Square) : Square := ⟨-a.row, a.col⟩

/-- The step with left and right swapped. -/
def flipCol (a : Square) : Square := ⟨a.row, -a.col⟩

def transpose (a : Square) : Square := ⟨a.col, a.row⟩

/-- Is it a signed 32-bit number with an opposite? The least of them has none. -/
def reversible (x : Int) : Bool := x.natAbs < UInt32.size / 2

/-- The step turned round along the ranks, if that can be written down. -/
def flipRow? (a : Square) : Option Square := if reversible a.row then some a.flipRow else none

/-- The step turned round along the files, if that can be written down. -/
def flipCol? (a : Square) : Option Square := if reversible a.col then some a.flipCol else none

/-- The step so many times over, if that and its length either way can be written down. -/
def scale? (a : Square) (k : Nat) : Option Square :=
  let s := a.scale k
  if reversible s.row && reversible s.col then some s else none

@[simp] theorem flipRow_flipRow (a : Square) : a.flipRow.flipRow = a := by simp [flipRow]

@[simp] theorem flipCol_flipCol (a : Square) : a.flipCol.flipCol = a := by simp [flipCol]

@[simp] theorem transpose_transpose (a : Square) : a.transpose.transpose = a := rfl

def isZero (a : Square) : Bool := a.row == 0 && a.col == 0

/-- The colour of the square itself; `a1` is dark. -/
def isDark (a : Square) : Bool := (a.row + a.col) % 2 == 0

/-- Rows first, then columns. -/
protected def compare (a b : Square) : Ordering := (compare a.row b.row).then (compare a.col b.col)

instance : Ord Square := ⟨Square.compare⟩

def fileLetter (col : Nat) : Char := Char.ofNat ('a'.toNat + col)

def hasLetter (a : Square) : Bool := 0 ≤ a.row && 0 ≤ a.col && a.col < 26

def chars (a : Square) : List Char :=
  if a.hasLetter then fileLetter a.col.toNat :: Decimal.ofNat (a.row.toNat + 1)
  else '(' :: Decimal.ofInt a.row ++ [',', ' '] ++ Decimal.ofInt a.col ++ [')']

def text (a : Square) : String := String.ofList a.chars

/-- A lower-case file letter, then a rank from 1 that a 32-bit number can hold. -/
def read? : List Char → Option Square
  | file :: rest =>
    if file.isLower then
      ((Decimal.readBelow? (UInt32.size / 2) rest).filter (1 ≤ ·)).map fun rank =>
        ⟨rank - 1, file.toNat - 'a'.toNat⟩
    else none
  | [] => none

end Square

end VariantChess
