import Mathlib.Algebra.BigOperators.Group.Multiset.Basic
import Mathlib.Data.List.Nodup
import Mathlib.Tactic.Abel
import VariantChess.Board

/-!
What stands on a board. The pieces are what the squares hold, read in row order, and on a sane
board each of them is found on the square it names. The census counts the pieces by side and type,
wherever they stand; writing a cell changes it by the piece that leaves and the piece that comes,
and nothing else. Boards that are made by placing pieces on squares of the board are sane.
-/

namespace VariantChess

attribute [ext] Square

namespace Dimensions

theorem mem_squares {d : Dimensions} {s : Square} : s ∈ d.squares ↔ d.contains s = true := by
  simp only [squares_eq, List.mem_map, List.mem_range]
  refine ⟨?_, ?_⟩
  · rintro ⟨i, inside, rfl⟩
    exact contains_squareAt inside
  · intro h
    exact ⟨d.index s, index_lt h, squareAt_index h⟩

theorem nodup_squares (d : Dimensions) : d.squares.Nodup := by
  have injective : Function.Injective d.squareAt := by
    intro i j same
    have index := congrArg d.index same
    rwa [index_squareAt, index_squareAt] at index
  rw [squares_eq]
  exact List.nodup_range.map injective

end Dimensions

namespace Board

theorem cells_toList (b : Board) : b.cells.toList = b.dims.squares.map b.pieceOn := by
  apply List.ext_getElem
  · simp [b.size_cells]
  · intro i hi _
    have inside : i < b.dims.squareCount := by simpa [b.size_cells] using hi
    have on : b.contains (b.dims.squareAt i) = true := Dimensions.contains_squareAt inside
    have size : i < b.cells.size := by simpa using hi
    simp only [Dimensions.squares_eq, List.getElem_map, List.getElem_range, pieceOn_of_contains on,
      Dimensions.index_squareAt, Array.getElem_toList, Array.getElem?_eq_getElem size,
      Option.getD_some]

theorem pieces_eq_filterMap (b : Board) : b.pieces = b.dims.squares.filterMap b.pieceOn := by
  rw [pieces, Array.toList_filterMap, cells_toList, List.filterMap_map]
  rfl

theorem contains_of_pieceOn {b : Board} {s : Square} {q : Piece} (h : b.pieceOn s = some q) :
    b.contains s = true := by
  by_contra outside
  rw [pieceOn_of_not_contains (by simpa using outside)] at h
  cases h

theorem mem_pieces {b : Board} {q : Piece} : q ∈ b.pieces ↔ ∃ s, b.pieceOn s = some q := by
  rw [pieces_eq_filterMap, List.mem_filterMap]
  refine ⟨?_, ?_⟩
  · intro ⟨s, _, on⟩
    exact ⟨s, on⟩
  · intro ⟨s, on⟩
    exact ⟨s, Dimensions.mem_squares.2 (contains_of_pieceOn on), on⟩

theorem mem_piecesOf {b : Board} {side : Side} {q : Piece} :
    q ∈ b.piecesOf side ↔ q ∈ b.pieces ∧ q.side = side := by
  simp [piecesOf]

theorem isEmpty_iff {b : Board} {s : Square} :
    b.isEmpty s = true ↔ b.contains s = true ∧ b.pieceOn s = none := by
  simp [isEmpty]

theorem footing_eq_empty {b : Board} {side : Side} {s : Square} :
    b.footing side s = .empty ↔ b.pieceOn s = none := by
  unfold footing
  cases b.pieceOn s with
  | none => simp
  | some q => by_cases h : q.side = side <;> simp [h]

theorem footing_eq_friend {b : Board} {side : Side} {s : Square} :
    b.footing side s = .friend ↔ ∃ q, b.pieceOn s = some q ∧ q.side = side := by
  unfold footing
  cases b.pieceOn s with
  | none => simp
  | some q => by_cases h : q.side = side <;> simp [h]

theorem footing_eq_enemy {b : Board} {side : Side} {s : Square} :
    b.footing side s = .enemy ↔ ∃ q, b.pieceOn s = some q ∧ q.side = side.other := by
  have turn (q : Piece) : q.side = side.other ↔ q.side ≠ side := by
    rcases Side.eq_or_eq_other side q.side with same | opposite
    · simp [same, Ne.symm (Side.other_ne_self side)]
    · simp [opposite]
  unfold footing
  cases b.pieceOn s with
  | none => simp
  | some q => by_cases h : q.side = side <;> simp [h, turn]

/-! A sane board. -/

theorem isSane_iff {b : Board} :
    b.isSane = true ↔ ∀ s q, b.pieceOn s = some q → q.square = s := by
  have cell (i : Nat) (hi : i < b.cells.size) : b.cells[i] = b.pieceOn (b.dims.squareAt i) := by
    have inside : i < b.dims.squareCount := by simpa [b.size_cells] using hi
    have on : b.contains (b.dims.squareAt i) = true := Dimensions.contains_squareAt inside
    rw [pieceOn_of_contains on, Dimensions.index_squareAt, Array.getElem?_eq_getElem hi,
      Option.getD_some]
  simp only [isSane, Nat.all_eq_finRange_all, List.all_eq_true, List.mem_finRange, true_implies,
    Fin.forall_iff]
  refine ⟨?_, ?_⟩
  · intro sane s q on
    have inside := contains_of_pieceOn on
    have size : b.dims.index s < b.cells.size := by
      rw [b.size_cells]
      exact Dimensions.index_lt inside
    have held := sane (b.dims.index s) size
    rw [cell _ size, Dimensions.squareAt_index inside, on] at held
    simpa using held
  · intro sane i hi
    rw [cell i hi, Option.all_eq_true]
    intro q on
    simpa using sane _ q on

section Sane

variable {b : Board} (sane : b.isSane = true)
include sane

theorem square_of_pieceOn {s : Square} {q : Piece} (h : b.pieceOn s = some q) : q.square = s :=
  isSane_iff.1 sane s q h

theorem mem_pieces_iff_pieceOn {q : Piece} : q ∈ b.pieces ↔ b.pieceOn q.square = some q := by
  rw [mem_pieces]
  refine ⟨?_, ?_⟩
  · intro ⟨s, on⟩
    rwa [square_of_pieceOn sane on]
  · intro on
    exact ⟨q.square, on⟩

theorem mem_piecesOf_iff_pieceOn {side : Side} {q : Piece} :
    q ∈ b.piecesOf side ↔ b.pieceOn q.square = some q ∧ q.side = side := by
  rw [mem_piecesOf, mem_pieces_iff_pieceOn sane]

theorem squares_pieces_nodup : (b.pieces.map (·.square)).Nodup := by
  have named : b.pieces.map (·.square) = b.dims.squares.filter fun s => (b.pieceOn s).isSome := by
    rw [pieces_eq_filterMap, List.map_filterMap, ← List.filterMap_eq_filter]
    apply List.filterMap_congr
    intro s _
    cases on : b.pieceOn s with
    | none => simp [Option.guard, on]
    | some q => simp [Option.guard, on, square_of_pieceOn sane on]
  rw [named]
  exact (Dimensions.nodup_squares _).filter _

theorem squares_piecesOf_nodup (side : Side) : ((b.piecesOf side).map (·.square)).Nodup :=
  (squares_pieces_nodup sane).sublist (List.filter_sublist.map _)

theorem piecesOf_nodup (side : Side) : (b.piecesOf side).Nodup :=
  (squares_piecesOf_nodup sane side).of_map _

end Sane

@[simp] theorem isSane_empty (d : Dimensions) : (empty d).isSane = true := by
  rw [isSane_iff]
  intro s q on
  simp at on

theorem isSane_set {b : Board} {s : Square} (sane : b.isSane = true) (h : b.contains s = true)
    (piece : Option Piece) : (b.set s piece).isSane = true := by
  rw [isSane_iff]
  intro t q on
  rw [pieceOn_set h] at on
  split at on
  · rename_i here
    obtain ⟨placed, _, rfl⟩ := Option.map_eq_some_iff.1 on
    exact here.symm
  · exact square_of_pieceOn sane on

theorem isSane_remove {b : Board} {s : Square} (sane : b.isSane = true) (h : b.contains s = true) :
    (b.remove s).isSane = true :=
  isSane_set sane h none

end Board

/-! The census of a board. -/

/-- What a move never changes about a piece. -/
def Piece.label (q : Piece) : Side × Nat := (q.side, q.kind)

@[simp] theorem Piece.label_placedAt (q : Piece) (s : Square) :
    (q.placedAt s).label = q.label := rfl

@[simp] theorem Piece.label_movedTo (q : Piece) (s : Square) :
    (q.movedTo s).label = q.label := rfl

namespace Board

def census (b : Board) : Multiset (Side × Nat) := ↑(b.pieces.map Piece.label)

/-- The label of the piece on a square, if there is one. -/
def tally (piece : Option Piece) : Multiset (Side × Nat) := ↑(piece.map Piece.label).toList

@[simp] theorem tally_none : tally none = 0 := rfl

@[simp] theorem tally_some (q : Piece) : tally (some q) = {q.label} := rfl

@[simp] theorem tally_placedAt (piece : Option Piece) (s : Square) :
    tally (piece.map (·.placedAt s)) = tally piece := by
  cases piece <;> rfl

theorem census_eq_sum (b : Board) : b.census = (b.cells.toList.map tally).sum := by
  rw [census, pieces, Array.toList_filterMap]
  induction b.cells.toList with
  | nil => rfl
  | cons cell rest ih =>
      cases cell with
      | none => simpa using ih
      | some q =>
          have kept : (some q :: rest).filterMap id = q :: rest.filterMap id := rfl
          rw [kept, List.map_cons, ← Multiset.cons_coe, ih, List.map_cons, List.sum_cons,
            tally_some, Multiset.singleton_add]

/-- Who is on the board after a cell is written, with the piece that had to go. -/
theorem census_set {b : Board} {s : Square} (h : b.contains s = true) (piece : Option Piece) :
    (b.set s piece).census + tally (b.pieceOn s) = b.census + tally piece := by
  have inside : b.dims.index s < b.cells.toList.length := by
    rw [Array.length_toList, b.size_cells]
    exact Dimensions.index_lt h
  have held : b.pieceOn s = b.cells.toList[b.dims.index s] := by
    rw [pieceOn_of_contains h, Array.getElem_toList, Array.getElem?_eq_getElem, Option.getD_some]
  have written : (b.set s piece).cells.toList =
      b.cells.toList.set (b.dims.index s) (piece.map (·.placedAt s)) := by
    simp [set, replace]
  have parts := List.take_append_drop (b.dims.index s) b.cells.toList
  rw [List.drop_eq_getElem_cons inside, ← held] at parts
  rw [census_eq_sum, census_eq_sum, written, List.set_eq_take_append_cons_drop, if_pos inside,
    ← congrArg (fun cells => (cells.map tally).sum) parts]
  simp only [List.map_append, List.map_cons, List.sum_append, List.sum_cons, tally_placedAt]
  abel

theorem census_place {b : Board} {s : Square} (h : b.contains s = true) (free : b.pieceOn s = none)
    (q : Piece) : (b.set s (some q)).census = b.census + {q.label} := by
  have written := census_set h (some q)
  rwa [free, tally_none, add_zero, tally_some] at written

theorem census_remove {b : Board} {s : Square} {q : Piece} (on : b.pieceOn s = some q) :
    (b.remove s).census + {q.label} = b.census := by
  have written := census_set (contains_of_pieceOn on) none
  rwa [on, tally_none, add_zero, tally_some] at written

end Board

end VariantChess
