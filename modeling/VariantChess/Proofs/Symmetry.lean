import VariantChess.Proofs.Conservation
import VariantChess.Proofs.MoveSymmetry
import VariantChess.Proofs.Royals

/-!
The whole game, turned over. Playing a move and turning the board over can be done in either order,
check is given to the side that takes the place of the one in check, so the legal moves are the same
moves turned over, and with them the end of the game and the number of lines of every length. Turned
by ranks this exchanges the sides; turned by files it exchanges left and right.
-/

namespace VariantChess

open Reflection

section

variable {r : Reflection} {types : Roster}

@[simp] theorem Piece.isRoyal_piece (d : Dimensions) (q : Piece) :
    (r.piece d q).isRoyal (r.roster d types) = q.isRoyal types := by
  simp [isRoyal, Option.any_map]

theorem Board.hasRoyal_board (b : Board) (side : Side) (s : Square) :
    (r.board b).hasRoyal (r.roster b.dims types) (r.side side) (r.square b.dims s) =
      b.hasRoyal types side s := by
  rw [Bool.eq_iff_iff, hasRoyal_iff, hasRoyal_iff, pieceOn_board_square]
  simp

theorem Board.inCheck_board (symmetric : types.Symmetric r) (b : Board) (side : Side) :
    (r.board b).inCheck (r.roster b.dims types) (r.side side) = b.inCheck types side := by
  have turned {b : Board} {types : Roster} {side : Side} (symmetric : types.Symmetric r)
      (check : b.inCheck types side = true) :
      (r.board b).inCheck (r.roster b.dims types) (r.side side) = true := by
    obtain ⟨q, attacker, s, landing, royal⟩ := inCheck_iff.1 check
    rw [inCheck_iff, ← side_other]
    exact ⟨r.piece b.dims q, mem_piecesOf_board.2 attacker, r.square b.dims s,
      (mem_landings_board symmetric).2 landing, (hasRoyal_board b side s).trans royal⟩
  rw [Bool.eq_iff_iff]
  refine ⟨?_, turned symmetric⟩
  intro check
  have back := turned (symmetric.turned b.dims) check
  simpa using back

namespace Position

variable {p : Position} {m : Move}

@[simp] theorem isSwap_move (d : Dimensions) (m : Move) : (r.move d m).isSwap = m.isSwap := by
  obtain ⟨_, _ | _⟩ := m <;> rfl

theorem fits_position (fits : p.Fits m) : (r.position p).Fits (r.move p.board.dims m) := by
  obtain ⟨present, inside, apart, going, swapping⟩ := fits
  refine ⟨by simp [present], by simpa using inside, by simpa using apart, ?_, ?_⟩
  · intro s go
    obtain ⟨q, t | t⟩ := m
    · obtain rfl := Action.go.inj go
      simpa using going t rfl
    · cases go
  · intro s swap
    obtain ⟨q, t | t⟩ := m
    · cases swap
    · obtain rfl := Action.swap.inj swap
      simpa using swapping t rfl

theorem boardAfter_position (fits : p.Fits m) :
    (r.position p).boardAfter (r.move p.board.dims m) = r.board (p.boardAfter m) := by
  have turned := fits_position (r := r) fits
  refine eq_board (by simp) ?_
  intro s
  rw [dims_boardAfter]
  cases act : m.isSwap with
  | false =>
      rw [pieceOn_boardAfter_go fits act, pieceOn_boardAfter_go turned (by simpa using act)]
      simp only [origin_move, target_move, piece_move, square_inj, board_position,
        pieceOn_board_square]
      split_ifs <;> rfl
  | true =>
      obtain ⟨partner, on⟩ := fits.exists_partner act
      have turned_on : (r.position p).board.pieceOn (r.move p.board.dims m).target =
          some (r.piece p.board.dims partner) := by
        simp [on]
      rw [pieceOn_boardAfter_swap fits act on,
        pieceOn_boardAfter_swap turned (by simpa using act) turned_on]
      simp only [origin_move, target_move, piece_move, square_inj, board_position,
        pieceOn_board_square]
      split_ifs <;> rfl

theorem taken_position (fits : p.Fits m) :
    (r.position p).taken (r.move p.board.dims m) = (p.taken m).map (r.piece p.board.dims) := by
  have turned := fits_position (r := r) fits
  cases act : m.action with
  | go s =>
      rw [taken_go turned (s := r.square p.board.dims s) (by simp [move, act]), taken_go fits act,
        board_position, pieceOn_board_square, Option.toList_map]
  | swap s =>
      rw [taken_swap act, taken_swap (s := r.square p.board.dims s) (by simp [move, act])]
      rfl

theorem after_position (fits : p.Fits m) :
    (r.position p).after (r.move p.board.dims m) = r.position (p.after m) := by
  rw [after, boardAfter_position fits, taken_position fits]
  simp [position, after]

variable (symmetric : types.Symmetric r)
include symmetric

theorem keepsSafe_position (fits : p.Fits m) :
    (r.position p).keepsSafe (r.roster p.board.dims types) (r.move p.board.dims m) =
      p.keepsSafe types m := by
  have check := Board.inCheck_board symmetric (p.boardAfter m) p.toMove
  rw [dims_boardAfter] at check
  rw [keepsSafe, keepsSafe, boardAfter_position fits, toMove_position, check]

theorem mem_legal_position (sane : p.board.isSane = true) :
    r.move p.board.dims m ∈ (r.position p).legal (r.roster p.board.dims types) ↔
      m ∈ p.legal types := by
  rw [mem_legal, mem_legal, mem_semiLegal_position symmetric sane]
  refine and_congr_right fun listed => ?_
  rw [keepsSafe_position symmetric (fits_of_mem_semiLegal sane listed)]

omit symmetric in
/-- Lists without repeats that hold each other's moves turned over. -/
theorem perm_map_move {d : Dimensions} {xs ys : List Move} (hx : xs.Nodup) (hy : ys.Nodup)
    (same : ∀ m, r.move d m ∈ ys ↔ m ∈ xs) : ys.Perm (xs.map (r.move d)) := by
  rw [List.perm_ext_iff_of_nodup hy (hx.map move_injective)]
  intro m
  rw [← move_move (r := r) (d := d) m, same, List.mem_map_of_injective move_injective]

theorem semiLegal_perm (sane : p.board.isSane = true) :
    ((r.position p).semiLegal (r.roster p.board.dims types)).Perm
      ((p.semiLegal types).map (r.move p.board.dims)) :=
  perm_map_move (semiLegal_nodup sane) (semiLegal_nodup (isSane_board.2 sane))
    fun _ => mem_semiLegal_position symmetric sane

theorem legal_perm (sane : p.board.isSane = true) :
    ((r.position p).legal (r.roster p.board.dims types)).Perm
      ((p.legal types).map (r.move p.board.dims)) :=
  perm_map_move (legal_nodup sane) (legal_nodup (isSane_board.2 sane))
    fun _ => mem_legal_position symmetric sane

theorem outcome_position (sane : p.board.isSane = true) :
    (r.position p).outcome (r.roster p.board.dims types) = p.outcome types := by
  have able : (r.position p).hasLegal (r.roster p.board.dims types) = p.hasLegal types := by
    rw [Bool.eq_iff_iff, hasLegal_iff, hasLegal_iff, ← List.length_pos_iff, ← List.length_pos_iff,
      (legal_perm symmetric sane).length_eq, List.length_map]
  rw [outcome, outcome, able, board_position, toMove_position, Board.inCheck_board symmetric]

theorem perft_position (sane : p.board.isSane = true) (depth : Nat) :
    perft (r.roster p.board.dims types) depth (r.position p) = perft types depth p := by
  induction depth generalizing p with
  | zero => rfl
  | succ depth ih =>
      have reply : ∀ m ∈ p.legal types,
          perft (r.roster p.board.dims types) depth
              ((r.position p).after (r.move p.board.dims m)) =
            perft types depth (p.after m) := by
        intro m listed
        have fits := fits_of_mem_legal sane listed
        have dims : (p.after m).board.dims = p.board.dims := dims_boardAfter p m
        rw [after_position fits, ← dims]
        exact ih (isSane_after sane fits)
      rw [perft_succ, perft_succ, ((legal_perm symmetric sane).map _).sum_eq, List.map_map]
      exact congrArg List.sum (List.map_congr_left reply)

/-- A position and its roster, beside the same turned over. -/
structure LooksAlike (r : Reflection) (types : Roster) (p : Position) : Prop where
  semiLegal : ((r.position p).semiLegal (r.roster p.board.dims types)).Perm
    ((p.semiLegal types).map (r.move p.board.dims))
  legal : ((r.position p).legal (r.roster p.board.dims types)).Perm
    ((p.legal types).map (r.move p.board.dims))
  played : ∀ m ∈ p.semiLegal types,
    (r.position p).after (r.move p.board.dims m) = r.position (p.after m)
  check : ∀ side, (r.position p).board.inCheck (r.roster p.board.dims types) (r.side side) =
    p.board.inCheck types side
  outcome : (r.position p).outcome (r.roster p.board.dims types) = p.outcome types
  perft : ∀ depth, perft (r.roster p.board.dims types) depth (r.position p) = perft types depth p

theorem looksAlike (sane : p.board.isSane = true) : LooksAlike r types p :=
  ⟨semiLegal_perm symmetric sane, legal_perm symmetric sane,
    fun _ listed => after_position (fits_of_mem_semiLegal sane listed),
    Board.inCheck_board symmetric p.board, outcome_position symmetric sane,
    perft_position symmetric sane⟩

end Position

end

/-- Left and right are exchanged, and the sides stay. -/
theorem wing_symmetry {types : Roster} (made : types.Made) {p : Position}
    (sane : p.board.isSane = true) :
    let d := p.board.dims
    let turned := files.roster d types
    let q := files.position p
    (q.semiLegal turned).Perm ((p.semiLegal types).map (files.move d)) ∧
    (q.legal turned).Perm ((p.legal types).map (files.move d)) ∧
    (∀ side, q.board.inCheck turned side = p.board.inCheck types side) ∧
    q.outcome turned = p.outcome types ∧
    ∀ depth, perft turned depth q = perft types depth p := by
  have alike := Position.looksAlike (made.symmetric files) sane
  exact ⟨alike.semiLegal, alike.legal, alike.check, alike.outcome, alike.perft⟩

/-! A white guard may hop over its king, or go home to a dark square. -/

namespace Homeward

def dims : Dimensions := ⟨4, 4, 2⟩

def guard : Plan := .retreat .dark (.leapfrog [⟨1, 0⟩, ⟨0, 1⟩] 1)

def types : Roster :=
  [⟨Plan.build dims .king, "King", "King", true⟩, ⟨guard.build dims, "Guard", "Guard", false⟩]

def initial : Position :=
  .start ((((Board.empty dims).set ⟨1, 0⟩ (some (.unmoved ⟨1, 0⟩ .white 1))).set ⟨1, 1⟩
    (some (.unmoved ⟨1, 1⟩ .white 0))).set ⟨3, 2⟩ (some (.unmoved ⟨3, 2⟩ .black 0))) .white

theorem made : types.Made := by
  apply Roster.made_of_build
  simp only [types, List.forall_mem_cons]
  exact ⟨⟨dims, .king, rfl⟩, ⟨dims, guard, rfl⟩, List.forall_mem_nil _⟩

theorem sane : initial.board.isSane = true := by decide +kernel

theorem lines : perft types 2 initial = 29 := by decide +kernel

end Homeward

open Homeward in
theorem Homeward.wings_exchanged : types.Made ∧ initial.board.isSane = true ∧
    files.roster dims types ≠ types ∧
    perft (files.roster dims types) 2 (files.position initial) = 29 := by
  obtain ⟨_, _, _, _, perft⟩ := wing_symmetry made sane
  exact ⟨made, sane, by decide +kernel, (perft 2).trans lines⟩

end VariantChess
