import VariantChess.Proofs.Conservation

/-!
Who has not moved. A move marks everyone it puts down and touches no other square, so the pieces that have
not moved are those of the first position on the squares that no move has touched. And who was taken is
kept as he stood on the board.
-/

namespace VariantChess

namespace Position

variable {p : Position} {m : Move} {s : Square} {q : Piece}

/-- A move leaves the unmoved pieces that are off its squares, and no others. -/
theorem unmoved_after_iff (fits : p.Fits m) :
    (p.after m).board.pieceOn s = some q ∧ q.moved = false ↔
      (p.board.pieceOn s = some q ∧ q.moved = false) ∧ s ≠ m.origin ∧ s ≠ m.target := by
  by_cases touched : s = m.origin ∨ s = m.target
  · have moved (on : (p.after m).board.pieceOn s = some q) : q.moved = true :=
      moved_of_touched fits touched on
    refine ⟨?_, ?_⟩
    · rintro ⟨on, unmoved⟩
      rw [moved on] at unmoved
      cases unmoved
    · rintro ⟨_, apart⟩
      exact (not_or.2 apart touched).elim
  · have apart := not_or.1 touched
    have kept : (p.after m).board.pieceOn s = p.board.pieceOn s :=
      pieceOn_boardAfter_of_ne fits apart.1 apart.2
    rw [kept]
    exact ⟨fun still => ⟨still, apart⟩, And.left⟩

/-- Whom a move takes, as he stands there. A swap takes nobody. -/
def victim (p : Position) (m : Move) : List Piece :=
  if m.isSwap then [] else (p.board.pieceOn m.target).toList

theorem taken_eq_victim (fits : p.Fits m) : p.taken m = p.victim m := by
  cases act : m.isSwap with
  | false => rw [taken_go fits (action_eq_go act), victim, act, if_neg Bool.false_ne_true]
  | true => rw [taken_swap (action_eq_swap act), victim, act, if_pos rfl]

end Position

namespace Game

open Position

variable {g : Game} {n : Nat} {p : Position} {m : Move}

/-- None of the first moves started or ended on the square. -/
def Untouched (g : Game) (n : Nat) (s : Square) : Prop :=
  ∀ m ∈ g.moves.take n, s ≠ m.origin ∧ s ≠ m.target

theorem untouched_succ (moved : g.moves[n]? = some m) {s : Square} :
    g.Untouched (n + 1) s ↔ g.Untouched n s ∧ s ≠ m.origin ∧ s ≠ m.target := by
  rw [Untouched, Untouched, List.take_add_one, moved, Option.toList_some, List.forall_mem_append,
    List.forall_mem_singleton]

/-- Whom the first moves took, in order. -/
def victims (g : Game) (n : Nat) : List Piece :=
  ((g.positions.zip g.moves).take n).flatMap fun (p, m) => p.victim m

theorem victims_succ (at_n : g.positions[n]? = some p) (moved : g.moves[n]? = some m) :
    g.victims (n + 1) = g.victims n ++ p.victim m := by
  have both : (g.positions.zip g.moves)[n]? = some (p, m) :=
    List.getElem?_zip_eq_some.2 ⟨at_n, moved⟩
  rw [victims, List.take_add_one, both, Option.toList_some, List.flatMap_append,
    List.flatMap_singleton]
  rfl

/-- A position of the game shows who has moved since the first one, and who was taken. -/
structure Remembers (g : Game) (first : Position) (n : Nat) (p : Position) : Prop where
  sane : p.board.isSane = true
  unmoved : ∀ s q, p.board.pieceOn s = some q ∧ q.moved = false ↔
    first.board.pieceOn s = some q ∧ g.Untouched n s
  captured : p.captured = first.captured ++ g.victims n

theorem remembers_zero {first : Position} (sane : first.board.isSane = true)
    (fresh : ∀ q ∈ first.board.pieces, q.moved = false) : g.Remembers first 0 first := by
  refine ⟨sane, ?_, (List.append_nil _).symm⟩
  intro s q
  have untouched : g.Untouched 0 s := nofun
  refine ⟨fun still => ⟨still.1, untouched⟩, ?_⟩
  rintro ⟨on, _⟩
  exact ⟨on, fresh q (Board.mem_pieces.2 ⟨s, on⟩)⟩

theorem Remembers.succ {first next : Position} (before : g.Remembers first n p)
    (at_n : g.positions[n]? = some p) (moved : g.moves[n]? = some m)
    (follows : Follows g.types p m next) : g.Remembers first (n + 1) next := by
  have fits := fits_of_isLegal before.sane follows.legal
  refine ⟨follows.isSane before.sane, ?_, ?_⟩
  · intro s q
    rw [follows.played, untouched_succ moved, ← and_assoc, ← before.unmoved]
    exact unmoved_after_iff fits
  · rw [follows.played, victims_succ at_n moved, ← List.append_assoc, ← before.captured,
      ← taken_eq_victim fits]
    rfl

/-- If nobody has moved at first, the unmoved pieces are at any time those of the first position on the
squares that no move so far has touched; the captured pieces are as they stood when they were taken. -/
theorem unmoved_iff_untouched {players : Players} {types : Roster} {initial : Position} {g₀ : Game}
    (made : make players types initial = .ok g₀) (sane : initial.board.isSane = true)
    (fresh : ∀ q ∈ initial.board.pieces, q.moved = false) (requests : List Request) :
    let g := g₀.run requests
    ∃ first, g.positions[0]? = some first ∧ first.board = initial.board ∧
      ∀ n p, g.positions[n]? = some p →
        (∀ s q, p.board.pieceOn s = some q ∧ q.moved = false ↔
          first.board.pieceOn s = some q ∧ ∀ m ∈ g.moves.take n, s ≠ m.origin ∧ s ≠ m.target) ∧
        p.captured = initial.captured ++ g.victims n := by
  obtain rfl := eq_start_of_make made
  intro g
  have consistent : g.Consistent := consistent_run (consistent_start players types initial) requests
  have at_zero := getElem?_zero_run players types initial requests
  refine ⟨initial.settled types, at_zero, rfl, ?_⟩
  intro n p at_n
  have all : g.Remembers (initial.settled types) n p :=
    consistent.positions_induction_at (P := g.Remembers (initial.settled types)) at_zero
      (remembers_zero sane fresh) (fun _ _ _ _ at_i moved before => before.succ at_i moved)
      n.zero_le at_n
  exact ⟨all.unmoved, all.captured⟩

end Game

/-! White's rook takes a rook that has not moved. -/

namespace Endgame

def contested : Position := .start (board.set ⟨2, 3⟩ (some (.unmoved ⟨2, 3⟩ .black 1))) .white

def contest : Game := .start ⟨"white", "black"⟩ types contested

def capture : Move := .go rook ⟨2, 3⟩

theorem captured_unmoved : Game.make ⟨"white", "black"⟩ types contested = .ok contest ∧
    contested.board.isSane = true ∧ (∀ q ∈ contested.board.pieces, q.moved = false) ∧
    ∃ p, (contest.run [.play capture]).positions[1]? = some p ∧
      p.captured = [.unmoved ⟨2, 3⟩ .black 1] ∧
      ∀ s q, p.board.pieceOn s = some q ∧ q.moved = false ↔
        contested.board.pieceOn s = some q ∧ s ≠ ⟨0, 3⟩ ∧ s ≠ ⟨2, 3⟩ := by
  have made : Game.make ⟨"white", "black"⟩ types contested = .ok contest := rfl
  have sane : contested.board.isSane = true := by decide +kernel
  have fresh : ∀ q ∈ contested.board.pieces, q.moved = false := by decide +kernel
  have played : (contest.run [.play capture]).moves = [capture] := by decide +kernel
  have size : 1 < (contest.run [.play capture]).positions.length := by decide +kernel
  have victims : (contest.run [.play capture]).victims 1 = [.unmoved ⟨2, 3⟩ .black 1] := by
    decide +kernel
  obtain ⟨first, _, same, all⟩ := Game.unmoved_iff_untouched made sane fresh [.play capture]
  have second := List.getElem?_eq_getElem size
  obtain ⟨unmoved, captured⟩ := all 1 _ second
  refine ⟨made, sane, fresh, _, second, captured.trans victims, ?_⟩
  intro s q
  rw [unmoved, same, played]
  simp [capture, rook, Piece.unmoved]

end Endgame

end VariantChess
