import VariantChess.Proofs.Rays
import VariantChess.Proofs.SemiLegal

/-!
Riders. A rider goes along every one of its rays as far as the squares are empty, and takes the first enemy
that it meets. The lengths that are left out of its routes are those that no board has room for. With
canonical steps it comes to each square in one way only, since these lead to the squares around it and their rays
never cross.
-/

namespace VariantChess

/-- Of a route that a slide follows only the last square may be held, and only by an enemy. -/
theorem Gait.slide_ray {b : Board} {p : Piece} {v : Step} {k : Nat} {t : Square} (some_way : 1 ≤ k) :
    slide.landing? .either b p (straightRoute v k) = some t ↔ p.Ray b v k t ∧
      ∀ j, 1 ≤ j → j < k → b.pieceOn (p.square.along v j) = none := by
  obtain ⟨k, rfl⟩ := Nat.exists_eq_add_of_le' some_way
  rw [landing?, Route.straight_succ, follow_sliding fun _ => rfl, Route.forall_mem_stops_straight,
    Route.leads_straightRoute, ← Square.along_succ, Piece.ray_succ_iff]
  simp only [Board.isEmpty_iff, Nat.lt_succ_iff, imp_and, forall_and]
  tauto

theorem Mover.nodup_routes_make {d : Dimensions} {m : Motion} (apart : (m.routes d).Nodup) (side : Side) :
    ((make d m).routes side).Nodup := by
  rw [routes_make]
  exact apart.map (List.map_injective_iff.2 side.turn_injective)

/-- If no two routes lead to one square, no square is listed twice, whatever the board looks like. -/
theorem Mover.nodup_destinations {m : Mover} {p : Piece} (apart : (m.routes p.side).Nodup)
    (differ : ∀ route ∈ m.routes p.side, ∀ other ∈ m.routes p.side,
      route.leads p.square = other.leads p.square → route = other) (i : Intent) (b : Board) :
    (m.destinations i b p).Nodup := by
  refine List.pairwise_filterMap.2 (apart.imp_of_mem ?_)
  intro route other listed among different t leads u leads_too same
  refine different (differ route listed other among ?_)
  rw [← Gait.follow_leads leads, ← Gait.follow_leads leads_too, same]

/-! Rays to the squares around. -/

/-- Leads to one of the eight squares around. -/
def Square.Adjacent (v : Step) : Prop := max v.row.natAbs v.col.natAbs = 1

namespace Square

variable {s : Square} {v w : Step} {j k : Nat}

theorem Adjacent.flipCol (adjacent : v.Adjacent) : v.flipCol.Adjacent := by
  simpa [Adjacent, Square.flipCol] using adjacent

theorem Adjacent.turn (adjacent : v.Adjacent) (side : Side) : (side.turn v).Adjacent := by
  cases side with
  | white => exact adjacent
  | black => simpa [Adjacent, Side.turn, Square.flipRow] using adjacent

theorem adjacent_of_mem_canonical (canonical : v ∈ Step.canonical) : v.Adjacent := by
  have each : ∀ v ∈ Step.canonical, max v.row.natAbs v.col.natAbs = 1 := by decide
  exact each v canonical

/-- The distance tells how often the step was made, and then which step it was. -/
theorem Adjacent.along_inj (hv : v.Adjacent) (hw : w.Adjacent) (some_way : 1 ≤ j)
    (same : s.along v j = s.along w k) : v = w ∧ j = k := by
  have distance {u : Step} (adjacent : u.Adjacent) (n : Nat) :
      max (n * u.row).natAbs (n * u.col).natAbs = n := by
    rw [Int.natAbs_mul, Int.natAbs_mul, Int.natAbs_natCast, Nat.mul_max_mul_left, adjacent, Nat.mul_one]
  obtain ⟨rows, cols⟩ := Square.mk.inj same
  have row : (j : Int) * v.row = k * w.row := Int.add_left_cancel rows
  have col : (j : Int) * v.col = k * w.col := Int.add_left_cancel cols
  obtain rfl : j = k := by rw [← distance hv j, row, col, distance hw k]
  have nonzero : (j : Int) ≠ 0 := by omega
  exact ⟨Square.ext (Int.eq_of_mul_eq_mul_left nonzero row) (Int.eq_of_mul_eq_mul_left nonzero col), rfl⟩

end Square

theorem Side.Heads.adjacent {side : Side} {steps : List Step} {v : Step} (heads : side.Heads steps v)
    (canonical : ∀ s ∈ steps, s ∈ Step.canonical) : v.Adjacent := by
  obtain ⟨s, given, rfl | rfl⟩ := heads
  · exact (Square.adjacent_of_mem_canonical (canonical s given)).turn side
  · exact (Square.adjacent_of_mem_canonical (canonical s given)).flipCol.turn side

theorem Mover.nodup_rider {steps : List Step} (canonical : ∀ s ∈ steps, s ∈ Step.canonical)
    (d : Dimensions) (i : Intent) (b : Board) (p : Piece) :
    ((make d (.rider steps)).destinations i b p).Nodup := by
  have ray {route : Route} (listed : route ∈ (make d (.rider steps)).routes p.side) :
      ∃ v k, v.Adjacent ∧ 1 ≤ k ∧ straightRoute v k = route := by
    obtain ⟨_, among, rfl⟩ := mem_routes_make.1 listed
    obtain ⟨v, seed, k, ⟨some_way, _⟩, rfl⟩ := mem_straightRoutes.1 among
    have heads : p.side.Heads steps (p.side.turn v) := Side.heads_iff.2 ⟨v, seed, rfl⟩
    exact ⟨p.side.turn v, k, heads.adjacent canonical, some_way, (map_straightRoute p.side.turn v k).symm⟩
  refine nodup_destinations (nodup_routes_make ?_ p.side) ?_ i b
  · exact nodup_straightRoutes (nodup_eraseDups _) le_rfl _
  · intro route listed other among same
    obtain ⟨v, j, hv, some_way, rfl⟩ := ray listed
    obtain ⟨w, k, hw, _, rfl⟩ := ray among
    rw [Route.leads_straightRoute, Route.leads_straightRoute] at same
    obtain ⟨rfl, rfl⟩ := hv.along_inj hw some_way same
    rfl

/-- The steps may be any, also those that are not canonical. -/
theorem Mover.rider_slides {b : Board} {p : Piece} (stands : b.pieceOn p.square = some p)
    (steps : List Step) :
    (∀ t, t ∈ (make b.dims (.rider steps)).destinations .either b p ↔
      ∃ v, p.side.Heads steps v ∧ ∃ k, 1 ≤ k ∧ p.Ray b v k t ∧
        ∀ j, 1 ≤ j → j < k → b.pieceOn (p.square.along v j) = none) ∧
    (∀ v k t, p.Ray b v k t → k ≤ max b.dims.rows b.dims.cols - 1) ∧
    ((∀ s ∈ steps, s ∈ Step.canonical) →
      ((make b.dims (.rider steps)).destinations .either b p).Nodup) := by
  refine ⟨?_, fun v k t ray => ray.le_reach stands, ?_⟩
  · intro t
    rw [mem_destinations_rays (fun _ => mem_straightRoutes) stands]
    refine exists_congr fun v => and_congr_right fun _ => exists_congr fun k => and_congr_right ?_
    exact Gait.slide_ray
  · exact fun canonical => nodup_rider canonical b.dims .either b p

open Descent in
theorem Descent.slides_down : board.pieceOn piece.square = some piece ∧
    ⟨5, 3⟩ ∈ (Mover.make board.dims (.rider Step.canonical)).destinations .either board piece ∧
    (∃ v, piece.side.Heads Step.canonical v ∧ ∃ k, 1 ≤ k ∧ piece.Ray board v k ⟨5, 3⟩ ∧
      ∀ j, 1 ≤ j → j < k → board.pieceOn (piece.square.along v j) = none) ∧
    ((Mover.make board.dims (.rider Step.canonical)).destinations .either board piece).Nodup := by
  have reached : ⟨5, 3⟩ ∈
      (Mover.make board.dims (.rider Step.canonical)).destinations .either board piece := by
    decide +kernel
  obtain ⟨squares, _, once⟩ := Mover.rider_slides stands Step.canonical
  exact ⟨stands, reached, (squares _).1 reached, once fun _ canonical => canonical⟩

end VariantChess
