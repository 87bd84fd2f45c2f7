import VariantChess.Dimensions
import VariantChess.Side

/-!
What a board of given dimensions reports about itself. Coordinates are 32-bit numbers, so a side too
long for them is measured modulo two to the power 32; on every board that fits, the survey agrees
with the dimensions.
-/

namespace VariantChess

structure Survey where
  rows : Int
  cols : Int
deriving DecidableEq, Repr

/-- A length as a signed 32-bit number. -/
def coordinateLength (n : Nat) : Int := Int.bmod n UInt32.size

theorem coordinateLength_of_lt {n : Nat} (h : 2 * n < UInt32.size) : coordinateLength n = n := by
  unfold coordinateLength
  simp only [UInt32.size] at h ⊢
  rw [Int.bmod_eq_of_le] <;> omega

theorem coordinateLength_lt (n : Nat) : 2 * coordinateLength n < UInt32.size := by
  unfold coordinateLength
  have half := Int.bmod_lt (x := n) (m := UInt32.size) (by decide)
  simp only [UInt32.size] at half ⊢
  omega

namespace Survey

def ofDimensions (d : Dimensions) : Survey := ⟨coordinateLength d.rows, coordinateLength d.cols⟩

def center (v : Survey) : Square := Square.middle v.rows v.cols

/-- The middle, unless one less than a length is no 32-bit number. -/
def center? (v : Survey) : Option Square :=
  if Square.reversible v.rows && Square.reversible v.cols then some v.center else none

/-- The first `limit` squares in row order. No more rows or columns than that are looked at. -/
def squares (v : Survey) (limit : Nat) : List Square :=
  (Square.grid (min limit v.rows.toNat) (min limit v.cols.toNat)).take limit

theorem center_ofDimensions {d : Dimensions} (rows : 2 * d.rows < UInt32.size)
    (cols : 2 * d.cols < UInt32.size) :
    (ofDimensions d).center = d.center := by
  simp only [center, ofDimensions, coordinateLength_of_lt rows, coordinateLength_of_lt cols]
  rfl

end Survey

end VariantChess
