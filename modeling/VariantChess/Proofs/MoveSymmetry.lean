import VariantChess.Proofs.RouteSymmetry

/-!
Moves turned over. A walk on the turned board meets the same footing at every step, so it ends on the
image of the square where it ended before; movers, rules and positions inherit this one after the
other. Moves are listed in another order, but they are the same moves turned over, each once.
-/

namespace VariantChess

open Reflection

variable {r : Reflection} {b : Board} {q : Piece} {s : Square}

theorem Gait.follow_board (g : Gait) (i : Intent) (side : Side) (memory : g.Memory) (s : Square)
    (route : Route) :
    g.follow i (r.board b) (r.side side) memory (r.square b.dims s) (route.map r.step) =
      (g.follow i b side memory s route).map (r.square b.dims) := by
  induction route generalizing memory s with
  | nil => rfl
  | cons step rest ih =>
      cases rest with
      | nil =>
          simp only [List.map_cons, List.map_nil, follow_singleton, ← square_add, footing_board,
            contains_board_square]
          split <;> rfl
      | cons next rest =>
          simp only [List.map_cons, follow_cons_cons, ← square_add, footing_board,
            contains_board_square] at ih ⊢
          rw [ih]
          split <;> rfl

theorem Mover.mem_destinations_board {m : Mover} (symmetric : m.Symmetric r) (i : Intent) :
    r.square b.dims s ∈ m.destinations i (r.board b) (r.piece b.dims q) ↔
      s ∈ m.destinations i b q := by
  have turned {b : Board} {q : Piece} {s : Square} (listed : s ∈ m.destinations i b q) :
      r.square b.dims s ∈ m.destinations i (r.board b) (r.piece b.dims q) := by
    obtain ⟨route, given, leads⟩ := List.mem_filterMap.1 listed
    refine List.mem_filterMap.2 ⟨route.map r.step, symmetric q.side route given, ?_⟩
    rw [Gait.landing?] at leads
    rw [Gait.landing?, side_piece, square_piece, Gait.follow_board, leads]
    rfl
  refine ⟨?_, turned⟩
  intro listed
  have back := turned listed
  simpa using back

namespace Rule

theorem mem_havens_board (f : Refuge) (side : Side) :
    r.square b.dims s ∈ havens (r.refuge b.dims f) (r.board b) (r.side side) ↔
      s ∈ havens f b side := by
  rw [mem_havens, mem_havens, dims_board, row_square_eq_homeRow, isEmpty_board, admits_refuge]

section

variable {rule : Rule} (symmetric : ∀ m ∈ rule.parts, m.Symmetric r)
include symmetric

theorem mem_landings_board :
    r.square b.dims s ∈ (r.rule b.dims rule).landings (r.board b) (r.piece b.dims q) ↔
      s ∈ rule.landings b q := by
  have destinations {m : Mover} (part : m ∈ rule.parts) (i : Intent) :=
    Mover.mem_destinations_board (b := b) (q := q) (s := s) (symmetric m part) i
  cases rule with
  | simple m | exchange partner m => exact destinations (by simp [Pattern.parts]) .either
  | retreat f m =>
      simp only [Reflection.rule, landings, List.mem_append]
      exact or_congr (destinations (by simp [Pattern.parts]) .either) (mem_havens_board f q.side)
  | moveCapture m c =>
      simp only [Reflection.rule, landings, List.mem_append]
      exact or_congr (destinations (by simp [Pattern.parts]) .captureOnly)
        (destinations (by simp [Pattern.parts]) .moveOnly)
  | combination x y =>
      simp only [Reflection.rule, landings, List.mem_append]
      exact or_congr (destinations (by simp [Pattern.parts]) .either)
        (destinations (by simp [Pattern.parts]) .either)

omit symmetric in
theorem mem_partners_board (sane : b.isSane = true) :
    r.square b.dims s ∈ (r.rule b.dims rule).partners (r.board b) (r.piece b.dims q) ↔
      s ∈ rule.partners b q := by
  have turned {b : Board} {q : Piece} {s : Square} {rule : Rule} (sane : b.isSane = true)
      (listed : s ∈ rule.partners b q) :
      r.square b.dims s ∈ (r.rule b.dims rule).partners (r.board b) (r.piece b.dims q) := by
    obtain ⟨kind, m, other, rfl, on, friend, known, apart⟩ := (mem_partners sane).1 listed
    exact (mem_partners (isSane_board.2 sane)).2 ⟨kind, m, r.piece b.dims other, rfl, by simp [on],
      by simp [friend], known, by simpa using apart⟩
  refine ⟨?_, turned sane⟩
  intro listed
  have back := turned (isSane_board.2 sane) listed
  simpa using back

theorem mem_moves_board (sane : b.isSane = true) {m : Move} :
    r.move b.dims m ∈ (r.rule b.dims rule).moves (r.board b) (r.piece b.dims q) ↔
      m ∈ rule.moves b q := by
  have turned {b : Board} {q : Piece} {m : Move} {rule : Rule}
      (symmetric : ∀ m ∈ rule.parts, m.Symmetric r) (sane : b.isSane = true)
      (listed : m ∈ rule.moves b q) :
      r.move b.dims m ∈ (r.rule b.dims rule).moves (r.board b) (r.piece b.dims q) := by
    rcases mem_moves.1 listed with ⟨s, landing, rfl⟩ | ⟨s, partner, rfl⟩
    · exact go_mem_moves.2 ((mem_landings_board symmetric).2 landing)
    · exact swap_mem_moves.2 ((mem_partners_board sane).2 partner)
  refine ⟨?_, turned symmetric sane⟩
  intro listed
  have back := turned (by simpa using symmetric) (isSane_board.2 sane) listed
  simpa using back

end

end Rule

section Types

variable {types : Roster} (symmetric : types.Symmetric r)
include symmetric

theorem Board.mem_landings_board :
    r.square b.dims s ∈ (r.board b).landings (r.roster b.dims types) (r.piece b.dims q) ↔
      s ∈ b.landings types q := by
  unfold landings
  rw [kind_piece, getElem?_roster]
  cases entry : types[q.kind]? with
  | none => simp
  | some t => exact Rule.mem_landings_board (symmetric t (List.mem_of_getElem? entry))

namespace Position

variable {p : Position} {m : Move} (sane : p.board.isSane = true)
include sane

theorem mem_semiLegalOf_position :
    r.move p.board.dims m ∈
        (r.position p).semiLegalOf (r.roster p.board.dims types) (r.piece p.board.dims q) ↔
      m ∈ p.semiLegalOf types q := by
  unfold semiLegalOf
  rw [kind_piece, getElem?_roster]
  cases entry : types[q.kind]? with
  | none => simp
  | some t => exact Rule.mem_moves_board (symmetric t (List.mem_of_getElem? entry)) sane

theorem mem_semiLegal_position :
    r.move p.board.dims m ∈ (r.position p).semiLegal (r.roster p.board.dims types) ↔
      m ∈ p.semiLegal types := by
  rw [mem_semiLegal_iff_pieceOn sane,
    mem_semiLegal_iff_pieceOn (p := r.position p) (isSane_board.2 sane), piece_move,
    mem_semiLegalOf_position symmetric sane]
  simp [Option.map_eq_some_iff]

end Position

end Types

end VariantChess
