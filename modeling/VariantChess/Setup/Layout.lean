import VariantChess.Dimensions.Survey
import VariantChess.Setup
import VariantChess.Text.Blank

/-!
The text layout of a setup: rows from the top of the board down, separated by slashes, with a letter
for each piece, upper case for White and lower case for Black, and a decimal number for a run of
empty squares; then the side to move, `w` or `b`. The letters stand for the six standard piece
types. When read, the side may be missing, and words after it are ignored.
-/

namespace VariantChess.Layout

/-- The letter of each standard piece type, by type number. -/
def letters : List Char := ['P', 'R', 'N', 'B', 'Q', 'K']

/-- Types without a letter are written as a question mark. -/
def letter (kind : Nat) : Side → Char
  | .white => letters.getD kind '?'
  | .black => (letters.getD kind '?').toLower

/-- What a row's text is made of. -/
inductive Item
  | gap (length : Nat)
  | man (kind : Nat) (side : Side)
deriving DecidableEq, Repr

def Item.width : Item → Nat
  | gap n => n
  | man _ _ => 1

def rowWidth (items : List Item) : Nat := items.foldr (fun item width => item.width + width) 0

/-- The text of an item. A gap of no squares leaves none. -/
def Item.chars : Item → List Char
  | gap n => if n = 0 then [] else Decimal.ofNat n
  | man kind side => [letter kind side]

/-- The items of a row of `cols` squares from column `col` on, given the columns, types and sides of its
pieces from left to right. -/
def rowItems (cols : Nat) : Nat → List (Nat × Nat × Side) → List Item
  | col, [] => [.gap (cols - col)]
  | col, (next, kind, side) :: rest => .gap (next - col) :: .man kind side :: rowItems cols (next + 1) rest

/-- The text of a row is cut into maximal runs of digits and single other characters. -/
def tokens (cs : List Char) : List (List Char) := cs.splitBy fun a b => a.isDigit && b.isDigit

def readLetter? (c : Char) : Option Item :=
  (letters.idxOf? c.toUpper).map fun kind => .man kind (if c.isUpper then .white else .black)

/-- A run of digits is one number, which must fit in 64 bits. -/
def readItem? : List Char → Option Item
  | [] => none
  | c :: rest =>
    if c.isDigit then (Decimal.readBelow? UInt64.size (c :: rest)).map .gap
    else readLetter? c

def readRow? (cs : List Char) : Option (List Item) := (tokens cs).mapM readItem?

/-- The pieces of one row, the first item starting at column `col`. -/
def rowPlacements (row : Int) (col : Nat) : List Item → List Placement
  | [] => []
  | .gap n :: rest => rowPlacements row (col + n) rest
  | .man kind side :: rest => ⟨⟨row, col⟩, kind, side⟩ :: rowPlacements row (col + 1) rest

/-- The pieces of so many rows, from the top row down to row 0. -/
def gridPlacements : Nat → List (List Item) → List Placement
  | row + 1, items :: below => rowPlacements row 0 items ++ gridPlacements row below
  | _, _ => []

def readSide? : List (List Char) → Option Side
  | [] => some .white
  | word :: _ => if word = ['w'] then some .white else if word = ['b'] then some .black else none

/-- Rows of one width, and the side to move. -/
def readGrid? (cs : List Char) : Option (List (List Item) × Side) :=
  match Text.words cs with
  | [] => none
  | grid :: rest => do
    let side ← readSide? rest
    let rows ← (grid.splitOn '/').mapM readRow?
    let width := (rows.map rowWidth).headD 0
    if rows.all (rowWidth · == width) then some (rows, side) else none

/-! While a row is read, every square of it takes 16 bytes. -/

/-- Does a row, of which `width` squares are read, outgrow memory before a token turns out unreadable? -/
def rowOutgrows (width : Nat) : List (List Char) → Bool
  | [] => false
  | token :: rest => match readItem? token with
    | none => false
    | some item => !Capacity.holds (width + item.width) 16 || rowOutgrows (width + item.width) rest

/-- A readable row that can be held as a whole can be held while it is read. -/
theorem rowOutgrows_eq_false {width : Nat} {row : List (List Char)} {items : List Item}
    (readable : row.mapM readItem? = some items)
    (fits : Capacity.holds (width + rowWidth items) 16 = true) : rowOutgrows width row = false := by
  induction row generalizing width items with
  | nil => rfl
  | cons token rest ih =>
    rw [List.mapM_cons] at readable
    obtain ⟨item, first, tail⟩ := Option.bind_eq_some_iff.1 readable
    obtain ⟨others, later, same⟩ := Option.bind_eq_some_iff.1 tail
    obtain rfl := Option.some.inj same
    change Capacity.holds (width + (item.width + rowWidth others)) 16 = true at fits
    rw [← Nat.add_assoc] at fits
    rw [rowOutgrows, first]
    simp only [Bool.or_eq_false_iff, Bool.not_eq_false']
    exact ⟨Capacity.holds_of_le (Nat.le_add_right _ _) fits, ih later fits⟩

/-- The same for rows that are read in turn. -/
def rowsOutgrow : List (List Char) → Bool
  | [] => false
  | row :: rest => rowOutgrows 0 (tokens row) || (readRow? row).isSome && rowsOutgrow rest

/-- Does reading a layout outgrow memory before anything turns out unreadable? The side to move is read
first. -/
def outgrowsMemory (text : String) : Bool :=
  match Text.words text.toList with
  | [] => false
  | grid :: rest => (readSide? rest).isSome && rowsOutgrow (grid.splitOn '/')

end VariantChess.Layout

namespace VariantChess

namespace Setup

/-- The columns of a row on which something is placed, from left to right. -/
def columns (u : Setup) (row : Int) (cols : Nat) : List Nat :=
  let onRow := u.placements.filter fun p =>
    p.square.row == row && 0 ≤ p.square.col && p.square.col.toNat < cols
  (onRow.map (·.square.col.toNat)).mergeSort.eraseDups

/-- The columns, types and sides of the pieces of a row, from left to right. -/
def rowMen (u : Setup) (row : Int) (cols : Nat) : List (Nat × Nat × Side) :=
  (u.columns row cols).filterMap fun (col : Nat) =>
    (u.get? ⟨row, col⟩).map fun p => (col, p.kind, p.side)

def rowChars (u : Setup) (cols row : Nat) : List Char :=
  (Layout.rowItems cols 0 (u.rowMen row cols)).flatMap Layout.Item.chars

/-- The rows and columns written are those that the board's survey counts. -/
def layoutChars (u : Setup) : List Char :=
  let survey := Survey.ofDimensions u.dims
  let rows := (List.range survey.rows.toNat).reverse.map (u.rowChars survey.cols.toNat)
  ['/'].intercalate rows ++ [' ', match u.toMove with | .white => 'w' | .black => 'b']

def layout (u : Setup) : String := String.ofList u.layoutChars

/-- The setup that a layout describes, on a board with the six standard piece types. -/
def ofLayout (text : String) : Except Error Setup :=
  match Layout.readGrid? text.toList with
  | none => .error (.unreadableLayout text)
  | some (rows, side) => do
    let dims ← Dimensions.make rows.length ((rows.map Layout.rowWidth).headD 0) 6
    return ofPlacements dims (Layout.gridPlacements dims.rows rows) side

/-- Reads a layout as far as its rows can be held. -/
def ofLayout? (text : String) : Option (Except Error Setup) :=
  if Layout.outgrowsMemory text then none else some (ofLayout text)

end Setup

end VariantChess
