import VariantChess.Proofs.History
import VariantChess.Proofs.Validity

/-!
What a semi-legal move changes, and what it keeps. The piece that moves, and in a swap its partner,
end on the other square and count as moved; no other square is written, and what was taken joins the
captured. So the muster of a position, everyone on the board or taken, by side and type, is the same
after any line of moves, and a board that can be read back stays one.
-/

namespace VariantChess

namespace Position

/-- Everyone on the board or taken, by side and type. -/
def muster (p : Position) : Multiset (Side × Nat) :=
  p.board.census + ↑(p.captured.map Piece.label)

variable {types : Roster} {p : Position} {q : Piece} {m : Move}

theorem action_eq_go (go : m.isSwap = false) : m.action = .go m.target := by
  unfold Move.isSwap at go
  unfold Move.target
  cases act : m.action with
  | go s => rfl
  | swap s => simp [act] at go

theorem action_eq_swap (swap : m.isSwap = true) : m.action = .swap m.target := by
  unfold Move.isSwap at swap
  unfold Move.target
  cases act : m.action with
  | go s => simp [act] at swap
  | swap s => rfl

theorem pieceOn_boardAfter_go (fits : p.Fits m) (go : m.isSwap = false) (s : Square) :
    (p.boardAfter m).pieceOn s =
      if s = m.target then some (m.piece.movedTo m.target)
      else if s = m.origin then none
      else p.board.pieceOn s := by
  let lifted := p.board.remove m.origin
  have inside : lifted.contains m.target = true := fits.inside
  rw [boardAfter_go fits (action_eq_go go), Board.pieceOn_set (b := lifted) inside,
    Board.pieceOn_remove fits.origin_inside]
  rfl

theorem pieceOn_boardAfter_swap (fits : p.Fits m) (swap : m.isSwap = true) {partner : Piece}
    (on : p.board.pieceOn m.target = some partner) (s : Square) :
    (p.boardAfter m).pieceOn s =
      if s = m.origin then some (partner.movedTo m.origin)
      else if s = m.target then some (m.piece.movedTo m.target)
      else p.board.pieceOn s := by
  let cleared := (p.board.remove m.origin).remove m.target
  let half := cleared.set m.target (some (m.piece.movedTo m.target))
  have origin_inside : half.contains m.origin = true := fits.origin_inside
  have target_inside : cleared.contains m.target = true := fits.inside
  rw [boardAfter_swap fits (action_eq_swap swap) on, Board.pieceOn_set (b := half) origin_inside,
    Board.pieceOn_set target_inside]
  by_cases home : s = m.origin
  · simp [home]
  · by_cases there : s = m.target
    · simp [there]
    · have kept : cleared.pieceOn s = p.board.pieceOn s := by
        rw [Board.pieceOn_remove (b := p.board.remove m.origin) fits.inside, if_neg there,
          pieceOn_lifted fits home]
      simp [home, there, kept]

/-- A swap finds its partner on the target. -/
theorem Fits.exists_partner (fits : p.Fits m) (swap : m.isSwap = true) :
    ∃ partner, p.board.pieceOn m.target = some partner := by
  obtain ⟨partner, on, _⟩ := partner_of_fits fits (action_eq_swap swap)
  exact ⟨partner, on⟩

theorem pieceOn_boardAfter_of_ne (fits : p.Fits m) {s : Square} (not_origin : s ≠ m.origin)
    (not_target : s ≠ m.target) : (p.boardAfter m).pieceOn s = p.board.pieceOn s := by
  cases act : m.isSwap with
  | false => rw [pieceOn_boardAfter_go fits act, if_neg not_target, if_neg not_origin]
  | true =>
      obtain ⟨_, on⟩ := fits.exists_partner act
      rw [pieceOn_boardAfter_swap fits act on, if_neg not_origin, if_neg not_target]

/-- Whoever stands on a square of the move has been moved. -/
theorem moved_of_touched (fits : p.Fits m) {s : Square} (touched : s = m.origin ∨ s = m.target)
    (on : (p.boardAfter m).pieceOn s = some q) : q.moved = true := by
  cases act : m.isSwap with
  | false =>
      rw [pieceOn_boardAfter_go fits act] at on
      split_ifs at on with target origin
      · rw [← Option.some.inj on]
        rfl
      · exact (not_or.2 ⟨origin, target⟩ touched).elim
  | true =>
      obtain ⟨_, stood⟩ := fits.exists_partner act
      rw [pieceOn_boardAfter_swap fits act stood] at on
      split_ifs at on with origin target
      · rw [← Option.some.inj on]
        rfl
      · rw [← Option.some.inj on]
        rfl
      · exact (not_or.2 ⟨origin, target⟩ touched).elim

/-- Only a piece that was moved stands where it did not stand before. -/
theorem moved_of_pieceOn_boardAfter (fits : p.Fits m) {s : Square}
    (on : (p.boardAfter m).pieceOn s = some q) (changed : p.board.pieceOn s ≠ some q) :
    q.moved = true := by
  refine moved_of_touched fits ?_ on
  by_contra apart
  obtain ⟨not_origin, not_target⟩ := not_or.1 apart
  exact changed ((pieceOn_boardAfter_of_ne fits not_origin not_target).symm.trans on)

theorem taken_eq_singleton (fits : p.Fits m) (go : m.isSwap = false)
    (stood : p.board.pieceOn m.target = some q) : p.taken m = [q] := by
  rw [taken_go fits (action_eq_go go), stood]
  rfl

theorem taken_eq_nil (fits : p.Fits m)
    (nothing : m.isSwap = true ∨ p.board.pieceOn m.target = none) : p.taken m = [] := by
  cases act : m.isSwap with
  | false =>
      have free : p.board.pieceOn m.target = none := by simpa [act] using nothing
      rw [taken_go fits (action_eq_go act), free]
      rfl
  | true => exact taken_swap (action_eq_swap act)

theorem muster_after (fits : p.Fits m) : (p.after m).muster = p.muster := by
  unfold muster
  rw [← census_boardAfter fits, after, List.map_append, ← Multiset.coe_add]
  abel

theorem known_after (fits : p.Fits m) {kinds : Nat} (known : ∀ q ∈ p.board.pieces, q.kind < kinds) :
    ∀ q ∈ (p.after m).board.pieces, q.kind < kinds := by
  intro q listed
  have label : q.label ∈ p.board.census := by
    rw [← census_boardAfter fits]
    exact Multiset.mem_add.2 (.inl (Multiset.mem_coe.2 (List.mem_map_of_mem listed)))
  obtain ⟨before, stood, same⟩ := List.mem_map.1 (Multiset.mem_coe.1 label)
  have kind : before.kind = q.kind := congrArg Prod.snd same
  rw [← kind]
  exact known before stood

theorem valid_after (valid : p.board.Valid) (fits : p.Fits m) : (p.after m).board.Valid := by
  have dims : (p.after m).board.dims = p.board.dims := dims_boardAfter p m
  refine ⟨?_, ?_, ?_, isSane_after valid.sane fits, ?_⟩
  · exact dims ▸ valid.rows
  · exact dims ▸ valid.cols
  · exact dims ▸ valid.kinds
  · rw [dims]
    exact known_after fits valid.known

/-- What a move makes of a position. -/
structure Conserves (p : Position) (m : Move) (next : Position) : Prop where
  dims : next.board.dims = p.board.dims
  size : next.board.cells.size = p.board.cells.size
  sane : next.board.isSane = true
  valid : p.board.Valid →
    next.board.Valid ∧ Board.ofCells next.board.dims next.board.cells.toList = .ok next.board
  frame : ∀ s, s ≠ m.origin → s ≠ m.target → next.board.pieceOn s = p.board.pieceOn s
  gone : m.isSwap = false → next.board.pieceOn m.origin = none ∧
    next.board.pieceOn m.target = some (m.piece.movedTo m.target)
  swapped : m.isSwap = true → ∃ partner, p.board.pieceOn m.target = some partner ∧
    next.board.pieceOn m.origin = some (partner.movedTo m.origin) ∧
    next.board.pieceOn m.target = some (m.piece.movedTo m.target)
  moved : ∀ s q, next.board.pieceOn s = some q → p.board.pieceOn s ≠ some q → q.moved = true
  capture : m.isSwap = false → ∀ victim, p.board.pieceOn m.target = some victim →
    victim.side = p.toMove.other ∧ next.captured = p.captured ++ [victim]
  quiet : m.isSwap = true ∨ p.board.pieceOn m.target = none → next.captured = p.captured
  muster : next.muster = p.muster
  turn : next.toMove = p.toMove.other
  status : next.status = p.status

theorem Fits.conserves (fits : p.Fits m) (sane : p.board.isSane = true)
    (turn : m.piece.side = p.toMove) : Conserves p m (p.after m) where
  dims := dims_boardAfter p m
  size := by
    rw [Board.size_cells, Board.size_cells]
    exact congrArg Dimensions.squareCount (dims_boardAfter p m)
  sane := isSane_after sane fits
  valid valid := ⟨valid_after valid fits, Board.ofCells_eq_ok.2 (valid_after valid fits)⟩
  frame _ not_origin not_target := pieceOn_boardAfter_of_ne fits not_origin not_target
  gone go := by
    have on := pieceOn_boardAfter_go fits go
    refine ⟨(on m.origin).trans ?_, (on m.target).trans (if_pos rfl)⟩
    rw [if_neg fits.apart.symm, if_pos rfl]
  swapped swap := by
    obtain ⟨partner, stood⟩ := fits.exists_partner swap
    have on := pieceOn_boardAfter_swap fits swap stood
    refine ⟨partner, stood, (on m.origin).trans (if_pos rfl), (on m.target).trans ?_⟩
    rw [if_neg fits.apart, if_pos rfl]
  moved _ _ := moved_of_pieceOn_boardAfter fits
  capture go victim stood := by
    have taken := taken_eq_singleton fits go stood
    refine ⟨?_, congrArg (p.captured ++ ·) taken⟩
    rw [← turn]
    exact (taken_spec fits (taken ▸ List.mem_singleton_self victim)).2.2
  quiet nothing := by rw [after, taken_eq_nil fits nothing, List.append_nil]
  muster := muster_after fits
  turn := rfl
  status := rfl

/-- A line of semi-legal moves, from one position to another. -/
inductive Line (types : Roster) : Position → List Move → Position → Prop
  | nil (p : Position) : Line types p [] p
  | cons {p q : Position} {m : Move} {rest : List Move} (listed : m ∈ p.semiLegal types)
      (line : Line types (p.after m) rest q) : Line types p (m :: rest) q

theorem Line.muster_eq {q : Position} {moves : List Move} (line : Line types p moves q)
    (sane : p.board.isSane = true) : q.muster = p.muster := by
  induction line with
  | nil => rfl
  | cons listed _ ih =>
      have fits := fits_of_mem_semiLegal sane listed
      exact (ih (isSane_after sane fits)).trans (muster_after fits)

end Position

namespace Game

open Position

theorem Follows.muster_eq {types : Roster} {p next : Position} {m : Move}
    (h : Follows types p m next) (sane : p.board.isSane = true) : next.muster = p.muster := by
  rw [h.played]
  exact muster_after (fits_of_isLegal sane h.legal)

theorem getElem?_zero_run (players : Players) (types : Roster) (p : Position)
    (requests : List Request) :
    ((start players types p).run requests).positions[0]? = some (p.settled types) := by
  obtain ⟨rest, whole⟩ := (extends_run (start players types p) requests).positions
  rw [← whole]
  rfl

theorem muster_run (players : Players) (types : Roster) {p : Position}
    (sane : p.board.isSane = true) (requests : List Request) :
    ∀ q ∈ ((start players types p).run requests).positions, q.muster = p.muster := by
  intro q listed
  have consistent := consistent_run (consistent_start players types p) requests
  have at_zero := getElem?_zero_run players types p requests
  obtain ⟨n, at_n⟩ := List.mem_iff_getElem?.1 listed
  exact (consistent.sane_induction (P := fun q => q.muster = p.muster) at_zero sane rfl
    (fun _ _ _ sane kept follows => (follows.muster_eq sane).trans kept) n.zero_le at_n).2

end Game

open Position in
/-- In the last part the moves are those that a game accepts, whatever is asked of it. -/
theorem semiLegal_conserves (types : Roster) {p : Position} (sane : p.board.isSane = true) :
    (∀ m ∈ p.semiLegal types, Conserves p m (p.after m)) ∧
    (∀ moves q, Line types p moves q → q.muster = p.muster) ∧
    ∀ players requests, ∀ q ∈ ((Game.start players types p).run requests).positions,
      q.muster = p.muster := by
  refine ⟨?_, fun _ _ line => line.muster_eq sane, fun players => Game.muster_run players types sane⟩
  intro m listed
  have turn := ((mem_semiLegal_iff_pieceOn sane).1 listed).1
  exact (fits_of_mem_semiLegal sane listed).conserves sane turn

/-- White's rook and king change places instead. -/
def Endgame.exchange : Move := .swap rook ⟨1, 1⟩

theorem Endgame.exchange_conserves : initial.board.isSane = true ∧
    exchange ∈ initial.semiLegal types ∧
    Position.Conserves initial exchange (initial.after exchange) ∧
    ∀ q ∈ (game.run [.play exchange, .play mate]).positions, q.muster = initial.muster := by
  have sane := Endgame.isSane_initial
  have listed : exchange ∈ initial.semiLegal types := by decide +kernel
  obtain ⟨played, _, run⟩ := semiLegal_conserves types sane
  exact ⟨sane, listed, played _ listed, run _ _⟩

end VariantChess
