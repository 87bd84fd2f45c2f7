import Mathlib.Algebra.BigOperators.Finprod
import Mathlib.Data.Set.Card
import VariantChess.Proofs.History

/-!
Perft counts lines of play. A line is a sequence of moves each of which is legal where the moves before
it lead. Since no legal move is listed twice, the lines of a length can be listed without repeats, and
perft is the length of that list, also at its last depth, where moves are counted and not played. A new
game accepts the moves of a line one after the other and those of nothing else, for the status that it
works out anew at every position has no part in what is legal.
-/

namespace VariantChess

namespace Position

/-- Is every move legal where the moves before it lead? -/
def isLegalLine (types : Roster) : Position → List Move → Bool
  | _, [] => true
  | p, m :: rest => p.isLegal types m && (p.after m).isLegalLine types rest

def atEnd (p : Position) (moves : List Move) : Position := moves.foldl after p

/-- The lines of so many moves. -/
def legalLines (types : Roster) : Nat → Position → List (List Move)
  | 0, _ => [[]]
  | depth + 1, p =>
    (p.legal types).flatMap fun m => (legalLines types depth (p.after m)).map (m :: ·)

variable {types : Roster} {p : Position}

theorem isSane_after_legal (sane : p.board.isSane = true) {m : Move} (legal : m ∈ p.legal types) :
    (p.after m).board.isSane = true :=
  isSane_after sane (fits_of_mem_legal sane legal)

/-- Only the board and the side to move count. -/
theorem isLegalLine_congr {q : Position} (board : p.board = q.board) (turn : p.toMove = q.toMove)
    (moves : List Move) : p.isLegalLine types moves = q.isLegalLine types moves := by
  induction moves generalizing p q with
  | nil => rfl
  | cons m rest ih =>
      obtain ⟨b, side, status, captured⟩ := p
      obtain ⟨b', side', status', captured'⟩ := q
      obtain rfl : b = b' := board
      obtain rfl : side = side' := turn
      let p : Position := ⟨b, side, status, captured⟩
      let q : Position := ⟨b, side, status', captured'⟩
      have later : (p.after m).isLegalLine types rest = (q.after m).isLegalLine types rest :=
        ih rfl rfl
      exact congrArg (p.isLegal types m && ·) later

theorem isLegalLine_settled (moves : List Move) :
    (p.settled types).isLegalLine types moves = p.isLegalLine types moves := by
  have board : (p.settled types).board = p.board := rfl
  have turn : (p.settled types).toMove = p.toMove := rfl
  exact isLegalLine_congr board turn moves

theorem length_legalLines (types : Roster) (depth : Nat) (p : Position) :
    (p.legalLines types depth).length = perft types depth p := by
  induction depth generalizing p with
  | zero => rfl
  | succ depth ih =>
      rw [perft_succ, legalLines, List.length_flatMap]
      simp only [List.length_map, ih]

theorem mem_legalLines (sane : p.board.isSane = true) {depth : Nat} {moves : List Move} :
    moves ∈ p.legalLines types depth ↔
      moves.length = depth ∧ p.isLegalLine types moves = true := by
  induction depth generalizing p moves with
  | zero =>
      rw [legalLines, List.mem_singleton, List.length_eq_zero_iff]
      refine ⟨?_, And.left⟩
      rintro rfl
      exact ⟨rfl, rfl⟩
  | succ depth ih =>
      simp only [legalLines, List.mem_flatMap, List.mem_map]
      refine ⟨?_, ?_⟩
      · rintro ⟨m, legal, rest, later, rfl⟩
        obtain ⟨length, line⟩ := (ih (isSane_after_legal sane legal)).1 later
        refine ⟨congrArg (· + 1) length, Bool.and_eq_true_iff.2 ⟨?_, line⟩⟩
        exact (isLegal_iff_mem sane).2 legal
      · intro ⟨length, line⟩
        obtain ⟨m, rest, rfl⟩ := List.exists_of_length_succ moves length
        obtain ⟨first, later⟩ := Bool.and_eq_true_iff.1 line
        have legal := (isLegal_iff_mem sane).1 first
        refine ⟨m, legal, rest, ?_, rfl⟩
        exact (ih (isSane_after_legal sane legal)).2 ⟨Nat.succ.inj length, later⟩

theorem nodup_legalLines (sane : p.board.isSane = true) (depth : Nat) :
    (p.legalLines types depth).Nodup := by
  induction depth generalizing p with
  | zero => exact List.nodup_singleton []
  | succ depth ih =>
      rw [legalLines, List.nodup_flatMap]
      refine ⟨?_, (legal_nodup sane).imp ?_⟩
      · intro m legal
        exact (ih (isSane_after_legal sane legal)).map (List.cons_injective)
      · intro m n apart line first second
        obtain ⟨rest, _, rfl⟩ := List.mem_map.1 first
        obtain ⟨other, _, same⟩ := List.mem_map.1 second
        exact apart (List.cons.inj same).1.symm

/-- The same list, as the set of its lines. -/
theorem coe_legalLines (sane : p.board.isSane = true) (depth : Nat) :
    ((p.legalLines types depth).toFinset : Set (List Move)) =
      {moves | moves.length = depth ∧ p.isLegalLine types moves = true} := by
  ext moves
  rw [List.coe_toFinset, Set.mem_ofPred_eq, mem_legalLines sane, Set.mem_ofPred_eq]

theorem encard_legalLines (sane : p.board.isSane = true) (depth : Nat) :
    {moves | moves.length = depth ∧ p.isLegalLine types moves = true}.encard =
      perft types depth p := by
  rw [← coe_legalLines sane, Set.encard_coe_eq_coe_finsetCard,
    List.toFinset_card_of_nodup (nodup_legalLines sane depth), length_legalLines]

/-- Perft of a sum of depths, by the lines of the first. -/
theorem perft_add (types : Roster) (a b : Nat) (p : Position) : perft types (a + b) p =
    ((p.legalLines types a).map fun moves => perft types b (p.atEnd moves)).sum := by
  induction a generalizing p with
  | zero => simp [legalLines, atEnd]
  | succ a ih =>
      rw [Nat.succ_add, perft_succ, legalLines, List.map_flatMap, List.flatMap_def, List.sum_flatten,
        List.map_map]
      refine congrArg List.sum (List.map_congr_left ?_)
      intro m _
      rw [ih, Function.comp_apply, List.map_map]
      rfl

end Position

namespace Game

/-- Plays the moves one after the other, if all of them are accepted. -/
def playAll? (g : Game) (moves : List Move) : Option Game := moves.foldlM play? g

theorem Consistent.playAll?_isSome {g : Game} (h : g.Consistent) (moves : List Move) :
    (g.playAll? moves).isSome = g.current.isLegalLine g.types moves := by
  induction moves generalizing g with
  | nil => rfl
  | cons m rest ih =>
      rw [playAll?, List.foldlM_cons, Position.isLegalLine]
      by_cases legal : g.current.isLegal g.types m = true
      · obtain ⟨next, played⟩ := Option.isSome_iff_exists.1 (h.play?_isSome.2 legal)
        obtain ⟨_, _, rfl⟩ := play?_eq_some.1 played
        rw [played, legal, Bool.true_and]
        refine (ih (h.record legal)).trans ?_
        rw [current_record]
        exact Position.isLegalLine_settled rest
      · have refused : g.play? m = none := by
          rw [← Option.not_isSome_iff_eq_none, h.play?_isSome]
          exact legal
        rw [refused, Bool.eq_false_iff.2 legal]
        rfl

end Game

open Position

/-- The first two parts count sequences of moves; the third sums over the same sequences. -/
theorem perft_counts_lines (g : Game) {p : Position} (sane : p.board.isSane = true) :
    (∀ depth, {moves | moves.length = depth ∧ p.isLegalLine g.types moves = true}.encard =
      perft g.types depth p) ∧
    (g.types.length = p.board.dims.kinds → ∀ players, ∃ game,
      Game.make players g.types p = .ok game ∧ ∀ depth,
        {moves | moves.length = depth ∧ (game.playAll? moves).isSome = true}.encard =
          perft g.types depth p) ∧
    ∀ a b, perft g.types (a + b) p =
      ∑ᶠ moves ∈ {moves | moves.length = a ∧ p.isLegalLine g.types moves = true},
        perft g.types b (p.atEnd moves) := by
  refine ⟨encard_legalLines sane, ?_, ?_⟩
  · intro known players
    refine ⟨Game.start players g.types p, if_pos known, ?_⟩
    intro depth
    have accepted (moves : List Move) :
        ((Game.start players g.types p).playAll? moves).isSome = p.isLegalLine g.types moves :=
      ((Game.consistent_start players g.types p).playAll?_isSome moves).trans
        (isLegalLine_settled moves)
    simp only [accepted]
    exact encard_legalLines sane depth
  · intro a b
    rw [perft_add, ← coe_legalLines sane, finsum_mem_coe_finset,
      List.sum_toFinset _ (nodup_legalLines sane a)]

open Endgame in
/-- White has 13 moves, some of which end the game, and there are 19 lines of two. -/
theorem Endgame.lines_to_play : initial.board.isSane = true ∧
    game.types.length = initial.board.dims.kinds ∧
    {moves | moves.length = 2 ∧ initial.isLegalLine types moves = true}.encard = 19 ∧
    (∃ new, Game.make game.players types initial = .ok new ∧
      {moves | moves.length = 2 ∧ (new.playAll? moves).isSome = true}.encard = 19) ∧
    ∑ᶠ moves ∈ {moves | moves.length = 1 ∧ initial.isLegalLine types moves = true},
      perft types 1 (initial.atEnd moves) = 19 := by
  have sane := isSane_initial
  have known : game.types.length = initial.board.dims.kinds := rfl
  have count : perft types 2 initial = 19 := by decide +kernel
  obtain ⟨lines, accepted, split⟩ := perft_counts_lines game sane
  obtain ⟨new, made, played⟩ := accepted known game.players
  refine ⟨sane, known, ?_, ⟨new, made, ?_⟩, ?_⟩
  · exact (lines 2).trans (congrArg _ count)
  · exact (played 2).trans (congrArg _ count)
  · exact (split 1 1).symm.trans count

end VariantChess
