import VariantChess.Proofs.Footholds

/-!
Intents split the squares that a piece can reach. A walk under another intent takes the same steps and
remembers the same, so it can fail only at its last square, where the intent is asked whether it accepts
the footing. The squares of a piece that may only move, or may only take, are therefore those of a piece
that may do either, in the same order and as often, less the ones that are held or the ones that are not.
-/

namespace VariantChess

section

variable (b : Board) (side : Side) (s : Square)

theorem Intent.moveOnly_accepts : moveOnly.accepts (b.footing side s) = (b.pieceOn s).isNone := by
  unfold Board.footing
  cases b.pieceOn s with
  | none => rfl
  | some q => by_cases friend : q.side = side <;> simp [friend, accepts, mayCapture]

theorem Intent.captureOnly_accepts : captureOnly.accepts (b.footing side s) =
    (b.pieceOn s).any (·.side == side.other) := by
  unfold Board.footing
  cases b.pieceOn s with
  | none => rfl
  | some q =>
      rcases Side.eq_or_eq_other side q.side with friend | enemy
      · simp [friend, accepts, (Side.other_ne_self side).symm]
      · simp [enemy, accepts, mayCapture]

theorem Intent.either_accepts : either.accepts (b.footing side s) = true ↔
    b.pieceOn s = none ∨ ∃ q, b.pieceOn s = some q ∧ q.side = side.other := by
  have empty : b.footing side s = .empty ↔ b.pieceOn s = none := Board.footing_eq_empty
  rw [← empty, ← Board.footing_eq_enemy]
  cases b.footing side s <;> decide

end

/-- The induction is on the route, with whatever is remembered of the steps before. -/
theorem Gait.follow_eq_filter {g : Gait} (heeds : g.Heeds) (i : Intent) (b : Board) (side : Side)
    (memory : g.Memory) (s : Square) (route : Route) :
    g.follow i b side memory s route =
      (g.follow .either b side memory s route).filter fun t => i.accepts (b.footing side t) := by
  induction route generalizing memory s with
  | nil => rfl
  | cons step rest ih =>
      cases rest with
      | nil =>
          rw [follow_singleton, follow_singleton, heeds.ends, ← Bool.and_assoc]
          split
          · rename_i both
            obtain ⟨first, accepted⟩ := Bool.and_eq_true_iff.1 both
            rw [if_pos first, Option.filter_some, if_pos accepted]
          · rename_i either_fails
            split
            · rename_i first
              have refused : i.accepts (b.footing side (s + step)) ≠ true := by
                intro accepted
                exact either_fails (Bool.and_eq_true_iff.2 ⟨first, accepted⟩)
              rw [Option.filter_some, if_neg refused]
            · rfl
      | cons next rest =>
          rw [follow_cons_cons, follow_cons_cons, heeds.goesOn, heeds.remembers]
          split
          · exact ih _ _
          · rfl

theorem Mover.destinations_eq_filter (m : Mover) (i : Intent) (b : Board) (p : Piece) :
    m.destinations i b p =
      (m.destinations .either b p).filter fun s => i.accepts (b.footing p.side s) := by
  rw [destinations, destinations, List.filter_filterMap]
  apply List.filterMap_congr
  intro route _
  exact Gait.follow_eq_filter m.motion.gait_heeds i b p.side _ p.square route

/-- The mover may have any routes, and the piece need not stand on the board. -/
theorem Mover.destinations_split (m : Mover) (b : Board) (p : Piece) :
    (∀ s ∈ m.destinations .either b p, b.contains s = true ∧
      (b.pieceOn s = none ∨ ∃ q, b.pieceOn s = some q ∧ q.side = p.side.other)) ∧
    m.destinations .moveOnly b p =
      (m.destinations .either b p).filter (fun s => (b.pieceOn s).isNone) ∧
    m.destinations .captureOnly b p =
      (m.destinations .either b p).filter fun s => (b.pieceOn s).any (·.side == p.side.other) := by
  refine ⟨?_, ?_, ?_⟩
  · intro s reached
    obtain ⟨inside, accepted⟩ := m.destination_lands reached
    exact ⟨inside, (Intent.either_accepts b p.side s).1 accepted⟩
  · rw [destinations_eq_filter m .moveOnly]
    simp only [Intent.moveOnly_accepts]
  · rw [destinations_eq_filter m .captureOnly]
    simp only [Intent.captureOnly_accepts]

end VariantChess
