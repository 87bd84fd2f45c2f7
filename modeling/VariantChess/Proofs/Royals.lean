import VariantChess.Proofs.History

/-!
Royal pieces are never taken. Whoever could take one on their turn gives check before it, since a
piece threatens exactly the squares that it may go to. A legal move leaves its own side out of
check, so from the first position in which the side that is not to move is safe, every capture of
a run takes a piece that is not royal, and exchanges only change places.
-/

namespace VariantChess

def Piece.isRoyal (types : Roster) (q : Piece) : Bool := (types[q.kind]?).any (·.royal)

namespace Board

variable {types : Roster} {b : Board} {side : Side}

/-- How many royal pieces a side has. -/
def royals (b : Board) (types : Roster) (side : Side) : Nat :=
  (b.piecesOf side).countP (·.isRoyal types)

/-- Does a label tell of a royal piece of this side? -/
def royalLabel (types : Roster) (side : Side) (label : Side × Nat) : Prop :=
  label.1 = side ∧ (types[label.2]?).any (·.royal) = true

instance (types : Roster) (side : Side) : DecidablePred (royalLabel types side) :=
  fun _ => inferInstanceAs (Decidable (_ ∧ _))

theorem royalLabel_label {q : Piece} :
    royalLabel types side q.label ↔ q.side = side ∧ q.isRoyal types = true := Iff.rfl

theorem royals_eq_countP (b : Board) (types : Roster) (side : Side) :
    b.royals types side = b.census.countP (royalLabel types side) := by
  rw [royals, piecesOf, List.countP_filter, census, Multiset.coe_countP, List.countP_map]
  apply List.countP_congr
  intro q _
  simp [royalLabel_label, and_comm]

theorem hasRoyal_iff {s : Square} : b.hasRoyal types side s = true ↔
    ∃ q, b.pieceOn s = some q ∧ q.side = side ∧ q.isRoyal types = true := by
  unfold hasRoyal
  cases b.pieceOn s with
  | none => simp
  | some q => simp [Piece.isRoyal]

theorem inCheck_iff : b.inCheck types side = true ↔
    ∃ q ∈ b.piecesOf side.other, ∃ s ∈ b.landings types q, b.hasRoyal types side s = true := by
  simp [inCheck]

end Board

namespace Position

variable {types : Roster} {p : Position} {m : Move}

/-- A move that would take a royal piece shows that its owner is in check. -/
theorem inCheck_of_taken_royal (sane : p.board.isSane = true) (h : m ∈ p.semiLegal types)
    {q : Piece} (taken : q ∈ p.taken m) (royal : q.isRoyal types = true) :
    p.board.inCheck types p.toMove.other = true := by
  obtain ⟨turn, standing, listed⟩ := (mem_semiLegal_iff_pieceOn sane).1 h
  obtain ⟨go, on, enemy⟩ := taken_spec (fits_of_mem_semiLegal sane h) taken
  have same : m = Move.go m.piece m.target := by
    rw [Move.go, ← go]
  have landing : m.target ∈ p.board.landings types m.piece := by
    rw [← go_mem_semiLegalOf (p := p), ← same]
    exact listed
  rw [Board.inCheck_iff, Side.other_other]
  refine ⟨m.piece, (Board.mem_piecesOf_iff_pieceOn sane).2 ⟨standing, turn⟩, m.target, landing, ?_⟩
  rw [turn] at enemy
  exact Board.hasRoyal_iff.2 ⟨q, on, enemy, royal⟩

theorem royals_boardAfter (fits : p.Fits m) (spared : ∀ q ∈ p.taken m, q.isRoyal types = false)
    (side : Side) : (p.boardAfter m).royals types side = p.board.royals types side := by
  have none_taken : (((p.taken m).map Piece.label : List _) : Multiset (Side × Nat)).countP
      (Board.royalLabel types side) = 0 := by
    rw [Multiset.countP_eq_zero]
    intro label listed
    obtain ⟨q, taken, rfl⟩ := List.mem_map.1 (Multiset.mem_coe.1 listed)
    intro royal
    have common := spared q taken
    rw [(Board.royalLabel_label.1 royal).2] at common
    cases common
  rw [Board.royals_eq_countP, Board.royals_eq_countP, ← census_boardAfter fits, Multiset.countP_add,
    none_taken, add_zero]

/-- Nothing royal is lost between two positions, and the later one is safe. -/
structure RoyalsKept (types : Roster) (p later : Position) : Prop where
  royals : ∀ side, later.board.royals types side = p.board.royals types side
  captured : ∃ taken, later.captured = p.captured ++ taken ∧ ∀ q ∈ taken, q.isRoyal types = false
  safe : later.board.inCheck types later.toMove.other = false

theorem RoyalsKept.refl (safe : p.board.inCheck types p.toMove.other = false) :
    RoyalsKept types p p := by
  exact ⟨fun _ => rfl, ⟨[], (List.append_nil _).symm, List.forall_mem_nil _⟩, safe⟩

theorem safe_after (legal : p.isLegal types m = true) :
    (p.after m).board.inCheck types (p.after m).toMove.other = false := by
  have safe := (isLegal_iff.1 legal).2
  rw [keepsSafe, Bool.not_eq_true'] at safe
  rw [toMove_after, Side.other_other]
  exact safe

theorem RoyalsKept.after {first : Position} (h : RoyalsKept types first p)
    (sane : p.board.isSane = true) (legal : p.isLegal types m = true) :
    RoyalsKept types first (p.after m) := by
  have semiLegal := mem_semiLegal_of_isSemiLegal (isLegal_iff.1 legal).1
  have fits := fits_of_mem_semiLegal sane semiLegal
  have spared : ∀ q ∈ p.taken m, q.isRoyal types = false := by
    intro q taken
    by_contra royal
    have check := inCheck_of_taken_royal sane semiLegal taken (by simpa using royal)
    rw [h.safe] at check
    cases check
  obtain ⟨taken, captured, common⟩ := h.captured
  refine ⟨?_, ⟨taken ++ p.taken m, ?_, ?_⟩, safe_after legal⟩
  · intro side
    exact (royals_boardAfter fits spared side).trans (h.royals side)
  · rw [← List.append_assoc, ← captured]
    rfl
  · intro q either
    rcases List.mem_append.1 either with before | now
    · exact common q before
    · exact spared q now

end Position

namespace Game

open Position

theorem Follows.royals_kept {types : Roster} {first p next : Position} {m : Move}
    (h : Follows types p m next) (sane : p.board.isSane = true) (kept : RoyalsKept types first p) :
    RoyalsKept types first next := by
  have after := kept.after sane h.legal
  rw [h.played]
  exact ⟨after.royals, after.captured, after.safe⟩

theorem Follows.safe {types : Roster} {p next : Position} {m : Move} (h : Follows types p m next) :
    next.board.inCheck types next.toMove.other = false := by
  have after := safe_after h.legal
  rw [h.played]
  exact after

theorem Consistent.royals_kept {g : Game} (h : g.Consistent) {k n : Nat} {p q : Position}
    (at_k : g.positions[k]? = some p) (sane : p.board.isSane = true)
    (safe : p.board.inCheck g.types p.toMove.other = false) (later : k ≤ n)
    (at_n : g.positions[n]? = some q) : RoyalsKept g.types p q :=
  (h.sane_induction (P := RoyalsKept g.types p) at_k sane (.refl safe)
    (fun _ _ _ sane kept follows => follows.royals_kept sane kept) later at_n).2

/-- Boards are sane as they are built. If the side that is not to move is in check at the start, its
royal pieces can be lost to the first move, but not after it. -/
theorem royals_never_taken {players : Players} {types : Roster} {initial : Position} {g₀ : Game}
    (made : make players types initial = .ok g₀) (sane : initial.board.isSane = true)
    (requests : List Request) :
    let g := g₀.run requests
    (initial.board.inCheck types initial.toMove.other = false →
      ∀ q ∈ g.positions, RoyalsKept types initial q) ∧
    ∀ first, g.positions[1]? = some first → ∀ q ∈ g.positions.tail, RoyalsKept types first q := by
  intro g
  obtain rfl := eq_start_of_make made
  have consistent : g.Consistent := consistent_run (consistent_start _ _ _) requests
  have extended : (start players types initial).Extends g := extends_run _ requests
  have roster : g.types = types := extended.types
  have at_zero : g.positions[0]? = some (initial.settled types) := by
    obtain ⟨rest, whole⟩ := extended.positions
    rw [← whole]
    rfl
  refine ⟨?_, ?_⟩
  · intro safe q listed
    obtain ⟨n, at_n⟩ := List.mem_iff_getElem?.1 listed
    rw [← roster] at safe at_zero ⊢
    have kept := consistent.royals_kept at_zero sane safe (Nat.zero_le n) at_n
    exact ⟨kept.royals, kept.captured, kept.safe⟩
  · intro first at_one q listed
    obtain ⟨n, at_n⟩ := List.mem_iff_getElem?.1 listed
    rw [List.getElem?_tail] at at_n
    have inside := (List.getElem?_eq_some_iff.1 at_one).1
    have size := consistent.positions_length
    have moved : g.moves[0]? = some g.moves[0] := List.getElem?_eq_getElem (by omega)
    have follows := consistent.follows 0 _ _ _ at_zero moved at_one
    rw [← roster]
    exact consistent.royals_kept at_one (follows.isSane sane) follows.safe (by omega) at_n

theorem royals_kept_by_mate :
    make Endgame.game.players Endgame.types Endgame.initial = .ok Endgame.game ∧
    Endgame.initial.board.isSane = true ∧
    Endgame.initial.board.inCheck Endgame.types .black = false ∧
    ∀ q ∈ (Endgame.game.run [.play Endgame.mate]).positions,
      RoyalsKept Endgame.types Endgame.initial q := by
  have made : make Endgame.game.players Endgame.types Endgame.initial = .ok Endgame.game := rfl
  have sane := Endgame.isSane_initial
  have safe : Endgame.initial.board.inCheck Endgame.types .black = false := by decide +kernel
  exact ⟨made, sane, safe, (royals_never_taken made sane [.play Endgame.mate]).1 safe⟩

end Game

end VariantChess
