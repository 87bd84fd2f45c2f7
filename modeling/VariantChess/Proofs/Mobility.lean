import Mathlib.Data.List.Perm.Subperm
import VariantChess.Proofs.Goals
import VariantChess.Proofs.ItemByItem
import VariantChess.Proofs.Material
import VariantChess.Proofs.Validity

/-!
Mobility. The square of a piece and the targets of its moves are different squares of the board, so
wherever the piece stands and whatever its routes are, it has fewer moves than the board has squares.
This bounds what a type is worth, and with as many pieces as there are squares, what any board is worth:
up to a thousand squares no material weighs as much as a mate.
-/

namespace VariantChess

theorem Dimensions.contains_center {d : Dimensions} (squares : 0 < d.squareCount) :
    d.contains d.center = true := by
  have rows : 0 < d.rows := Nat.pos_of_mul_pos_right squares
  have cols : 0 < d.cols := Nat.pos_of_mul_pos_left squares
  refine contains_iff.2 ?_
  simp only [center, Square.middle]
  rw [Int.tdiv_eq_ediv_of_nonneg (by omega), Int.tdiv_eq_ediv_of_nonneg (by omega)]
  omega

theorem Board.length_pieces_le (b : Board) : b.pieces.length ≤ b.dims.squareCount := by
  rw [pieces_eq_filterMap, ← Dimensions.length_squares]
  exact List.length_filterMap_le _ _

theorem Position.length_semiLegalOf_lt {types : Roster} {p : Position} {q : Piece}
    (sane : p.board.isSane = true) (standing : p.board.pieceOn q.square = some q) :
    (p.semiLegalOf types q).length < p.board.dims.squareCount := by
  have fits {m : Move} (listed : m ∈ p.semiLegalOf types q) : p.Fits m ∧ m.origin = q.square :=
    ⟨fits_of_mem_semiLegalOf sane standing listed,
      congrArg Piece.square (piece_of_mem_semiLegalOf listed)⟩
  let visited := q.square :: (p.semiLegalOf types q).map Move.target
  have distinct : visited.Nodup := by
    refine List.nodup_cons.2 ⟨?_, (semiLegalOf_nodup sane).map_on ?_⟩
    · intro back
      obtain ⟨m, listed, home⟩ := List.mem_map.1 back
      exact (fits listed).1.apart (home.trans (fits listed).2.symm)
    · intro m hm n hn
      exact semiLegalOf_target_injective sane hm hn
  have inside : visited ⊆ p.board.dims.squares := by
    refine List.forall_mem_cons.2 ⟨?_, List.forall_mem_map.2 fun m listed => ?_⟩
    · exact Dimensions.mem_squares.2 (Board.contains_of_pieceOn standing)
    · exact Dimensions.mem_squares.2 (fits listed).1.inside
  have fewer := (List.subperm_of_subset distinct inside).length_le
  rwa [List.length_cons, List.length_map, Dimensions.length_squares] at fewer

namespace Evaluator

variable {d : Dimensions}

theorem worth_lt (squares : 0 < d.squareCount) (types : Roster) (kind : Nat) (t : PieceType) :
    worth types d kind t < d.squareCount := by
  unfold worth
  split
  · exact Int.natCast_pos.2 squares
  · let lone : Piece := .unmoved d.center .white kind
    have center : (Board.empty d).contains d.center = true := Dimensions.contains_center squares
    have standing : (lonePosition d kind).board.pieceOn lone.square = some lone := by
      rw [lonePosition, Position.start, Board.pieceOn_set center]
      exact if_pos rfl
    have sane : (lonePosition d kind).board.isSane = true :=
      Board.isSane_set (Board.isSane_empty d) center _
    exact Int.ofNat_lt.2 (Position.length_semiLegalOf_lt (q := lone) sane standing)

theorem value_lt (squares : 0 < d.squareCount) (types : Roster) (kind : Nat) :
    (make types d).value kind < d.squareCount := by
  rw [value_make]
  cases types[kind]? with
  | none => exact Int.natCast_pos.2 squares
  | some t => exact worth_lt squares types kind t

section Measured

variable (squares : 0 < d.squareCount) (few : 2 * d.squareCount < UInt32.size)
include squares few

theorem center?_ofDimensions : (Survey.ofDimensions d).center? = some d.center := by
  have rows : d.rows ≤ d.squareCount := Nat.le_mul_of_pos_right _ (Nat.pos_of_mul_pos_left squares)
  have cols : d.cols ≤ d.squareCount := Nat.le_mul_of_pos_left _ (Nat.pos_of_mul_pos_right squares)
  rw [← Survey.center_ofDimensions (by omega) (by omega), Survey.center?, Survey.ofDimensions,
    coordinateLength_of_lt (by omega), coordinateLength_of_lt (by omega)]
  refine if_pos ?_
  simp only [Square.reversible, Bool.and_eq_true, decide_eq_true_eq, UInt32.size] at few ⊢
  omega

theorem worth?_eq (types : Roster) (kind : Nat) (t : PieceType) :
    worth? types d d.center kind t = some (worth types d kind t) := by
  have holdable : d.isHoldable = true :=
    Capacity.holds_of_le (n := UInt32.size) (by omega) (by decide)
  have center : (Board.empty d).contains d.center = true := Dimensions.contains_center squares
  have less := worth_lt squares types kind t
  unfold worth at less ⊢
  unfold worth?
  split
  · rfl
  · rename_i common
    rw [if_neg common] at less
    have short : 2 * ((lonePosition d kind).semiLegalOf types (.unmoved d.center .white kind)).length <
        UInt32.size := by
      omega
    rw [Board.empty?, if_pos holdable, Option.bind_eq_bind, Option.bind_some, Board.set?, if_pos center,
      Option.bind_some]
    exact congrArg some (coordinateLength_of_lt short)

theorem make?_eq (types : Roster) : make? types d = some (make types d) := by
  have values : (types.zipIdx.mapM fun entry => worth? types d d.center entry.2 entry.1) =
      some (types.zipIdx.map fun entry => worth types d entry.2 entry.1) :=
    mapM_eq_some_map fun entry _ => worth?_eq squares few types entry.2 entry.1
  rw [make?, center?_ofDimensions squares few, Option.bind_eq_bind, Option.bind_some]
  exact congrArg (Option.bind · (some ∘ Evaluator.mk types)) values

end Measured

/-- As many pieces as there are squares, each worth as much as a piece can be. -/
def mostMaterial (d : Dimensions) : Nat := d.squareCount * (d.squareCount - 1)

theorem material_le (types : Roster) {b : Board} (size : b.dims.squareCount = d.squareCount) :
    (make types d).material b ≤ mostMaterial d := by
  have count := b.length_pieces_le
  rw [size] at count
  have each : ∀ v ∈ b.pieces.map fun q => (make types d).value q.kind, v ≤ ↑(d.squareCount - 1) := by
    refine List.forall_mem_map.2 fun q listed => ?_
    have squares : 0 < d.squareCount := (List.length_pos_of_mem listed).trans_le count
    have less := value_lt squares types q.kind
    omega
  have total := List.sum_le_card_nsmul _ _ each
  rw [List.length_map, nsmul_eq_mul, ← Int.natCast_mul] at total
  exact total.trans (Int.ofNat_le.2 (Nat.mul_le_mul_right _ count))

theorem mostMaterial_lt_mateScore (small : d.squareCount ≤ 1000) : (mostMaterial d : Int) < mateScore := by
  have most : mostMaterial d ≤ 1000 * 999 := Nat.mul_le_mul small (Nat.sub_le_sub_right small 1)
  exact (Int.ofNat_le.2 most).trans_lt (by decide)

/-- Up to 46341 squares all material is a 32-bit number. -/
theorem mostMaterial_short (small : d.squareCount ≤ 46341) : 2 * mostMaterial d < UInt32.size := by
  have most : mostMaterial d ≤ 46341 * 46340 := Nat.mul_le_mul small (Nat.sub_le_sub_right small 1)
  exact (Nat.mul_le_mul_left 2 most).trans_lt (by decide)

end Evaluator

namespace Garrison

def game : Game := .start ⟨"white", "black"⟩ types position

def capture : Move := .go guard ⟨2, 0⟩

/-- The same game, told to be played on a board that nothing can hold. -/
def vastGame : Game := { game with dims := ⟨1152921504606846976, 8, 2⟩ }

end Garrison

end VariantChess
