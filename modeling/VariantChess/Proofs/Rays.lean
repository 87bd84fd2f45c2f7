import VariantChess.Proofs.Passages
import VariantChess.Proofs.RouteSymmetry

/-!
Straight ways over a board. A side makes the steps of a motion and their reflections in its own direction
along the rows, and a step that is repeated leads along a ray of squares. Two squares of one board are
never further apart than its reach, so a motion whose routes are cut off there misses none of the squares
that its piece may come to. What a gait makes of a ray is read off the squares that the route comes to: a gait
that remembers nothing new on its way judges each of them by itself.
-/

namespace VariantChess

/-! The steps of a side. -/

namespace Side

/-- A step as a side makes it; Black's go the other way along the rows. -/
def turn : Side → Step → Step
  | white, v => v
  | black, v => v.flipRow

@[simp] theorem turn_turn (side : Side) (v : Step) : side.turn (side.turn v) = v := by
  cases side with
  | white => rfl
  | black => exact Square.flipRow_flipRow v

theorem turn_injective (side : Side) : Function.Injective side.turn :=
  Function.LeftInverse.injective side.turn_turn

/-- The steps that a side can make when it is given some: these and their reflections, each turned
its way. -/
def Heads (side : Side) (steps : List Step) (v : Step) : Prop :=
  ∃ s ∈ steps, v = side.turn s ∨ v = side.turn s.flipCol

end Side

theorem Side.heads_iff {side : Side} {steps : List Step} {v : Step} :
    side.Heads steps v ↔ ∃ s ∈ reflected steps, side.turn s = v := by
  constructor
  · rintro ⟨s, given, rfl | rfl⟩
    · exact ⟨s, mem_reflected.2 ⟨s, given, .inl rfl⟩, rfl⟩
    · exact ⟨s.flipCol, mem_reflected.2 ⟨s, given, .inr rfl⟩, rfl⟩
  · rintro ⟨v, listed, rfl⟩
    obtain ⟨s, given, rfl | rfl⟩ := mem_reflected.1 listed
    · exact ⟨v, given, .inl rfl⟩
    · exact ⟨s, given, .inr rfl⟩

namespace Mover

theorem routes_make (d : Dimensions) (m : Motion) (side : Side) :
    (make d m).routes side = (m.routes d).map (List.map side.turn) := by
  cases side with
  | white =>
      have unturned : Side.white.turn = id := rfl
      rw [routes_make_white, unturned, List.map_id_fun, List.map_id]
  | black => rfl

theorem mem_routes_make {d : Dimensions} {m : Motion} {side : Side} {route : Route} :
    route ∈ (make d m).routes side ↔ ∃ given ∈ m.routes d, given.map side.turn = route := by
  rw [routes_make, List.mem_map]

end Mover

/-! The squares of a route. -/

/-- The last of several squares beside the ones before it. -/
theorem forall_to_succ {P : Nat → Prop} {k : Nat} : (∀ j, 1 ≤ j → j ≤ k + 1 → P j) ↔
    (∀ j, 1 ≤ j → j ≤ k → P j) ∧ P (k + 1) := by
  constructor
  · intro each
    exact ⟨fun j first within => each j first (Nat.le_succ_of_le within), each _ (by omega) le_rfl⟩
  · rintro ⟨before, last⟩ j first within
    rcases Nat.lt_or_eq_of_le within with earlier | rfl
    · exact before j first (Nat.le_of_lt_succ earlier)
    · exact last

/-- The first of them beside the ones after it. -/
theorem forall_from_one {P : Nat → Prop} {k : Nat} : (∀ j, 1 ≤ j → j ≤ k + 1 → P j) ↔
    P 1 ∧ ∀ j, 2 ≤ j → j < k + 2 → P j := by
  constructor
  · intro each
    exact ⟨each 1 le_rfl (by omega), fun j _ _ => each j (by omega) (by omega)⟩
  · rintro ⟨first, others⟩ j from_one within
    rcases Nat.lt_or_eq_of_le from_one with later | rfl
    · exact others j later (by omega)
    · exact first

namespace Route

/-- The squares that a route comes to, one after each of its steps. -/
def stops (s : Square) : Route → List Square
  | [] => []
  | step :: rest => (s + step) :: stops (s + step) rest

@[simp] theorem stops_nil (s : Square) : stops s [] = [] := rfl

@[simp] theorem stops_cons (s : Square) (step : Step) (rest : Route) :
    stops s (step :: rest) = (s + step) :: stops (s + step) rest := rfl

theorem stops_concat (s : Square) (route : Route) (last : Step) :
    stops s (route ++ [last]) = stops s route ++ [route.leads s + last] := by
  induction route generalizing s with
  | nil => rfl
  | cons step rest ih => simp [ih]

theorem straight_succ (v : Step) (k : Nat) : straightRoute v (k + 1) = straightRoute v k ++ [v] :=
  List.replicate_succ'

theorem forall_mem_stops_straight {P : Square → Prop} {s : Square} {v : Step} {k : Nat} :
    (∀ u ∈ stops s (straightRoute v k), P u) ↔ ∀ j, 1 ≤ j → j ≤ k → P (s.along v j) := by
  induction k with
  | zero =>
      constructor
      · intro _ j _ _
        omega
      · exact fun _ => List.forall_mem_nil _
  | succ k ih =>
      rw [straight_succ, stops_concat, List.forall_mem_append, List.forall_mem_singleton, ih,
        leads_straightRoute, ← Square.along_succ, forall_to_succ]

end Route

/-- A square of the board without a piece of that side. -/
def Board.OpenTo (b : Board) (side : Side) (s : Square) : Prop :=
  b.contains s = true ∧ ∀ q, b.pieceOn s = some q → q.side ≠ side

theorem Intent.accepts_openTo {b : Board} {side : Side} {s : Square} :
    b.contains s = true ∧ either.accepts (b.footing side s) = true ↔ b.OpenTo side s := by
  have open_iff : either.accepts (b.footing side s) = true ↔ b.footing side s ≠ .friend := by
    cases b.footing side s <;> decide
  rw [open_iff, Ne, Board.footing_eq_friend, Board.OpenTo]
  simp

namespace Gait

variable {g : Gait} {i : Intent} {b : Board} {side : Side} {memory : g.Memory} {s t : Square}

theorem follow_inside {route : Route} (h : g.follow i b side memory s route = some t) :
    ∀ u ∈ route.stops s, b.contains u = true := by
  induction route generalizing memory s with
  | nil => exact List.forall_mem_nil _
  | cons step rest ih =>
      rw [Route.stops_cons, List.forall_mem_cons]
      cases rest with
      | nil =>
          obtain ⟨inside, _, rfl⟩ := follow_singleton_eq_some.1 h
          exact ⟨inside, List.forall_mem_nil _⟩
      | cons next rest =>
          obtain ⟨inside, _, later⟩ := (follow_cons_eq_some (List.cons_ne_nil next rest)).1 h
          exact ⟨inside, ih later⟩

/-- A gait that remembers nothing new on its way. -/
theorem follow_steady (steady : ∀ f, (g.judge i f memory).2 = memory) {route : Route} {last : Step} :
    g.follow i b side memory s (route ++ [last]) = some t ↔
      (∀ u ∈ route.stops s, b.contains u = true ∧
        (g.judge i (b.footing side u) memory).1.mayGoOn = true) ∧
      (b.contains t = true ∧ (g.judge i (b.footing side t) memory).1.mayEnd = true) ∧
      route.leads s + last = t := by
  induction route generalizing s with
  | nil => simp [follow_singleton_eq_some, and_assoc]
  | cons step rest ih =>
      rw [List.cons_append, follow_cons_eq_some (List.append_ne_nil_of_right_ne_nil _ (by simp)), steady,
        ih, Route.stops_cons, List.forall_mem_cons, Route.leads_cons]
      tauto

/-- A slide, and any gait once it slides: over empty squares to one that is open. -/
theorem follow_sliding (slides : ∀ f, g.judge .either f memory = (slideVerdict .either f, memory))
    {route : Route} {last : Step} :
    g.follow .either b side memory s (route ++ [last]) = some t ↔
      (∀ u ∈ route.stops s, b.isEmpty u = true) ∧ b.OpenTo side t ∧ route.leads s + last = t := by
  rw [follow_steady fun f => by rw [slides f]]
  simp only [slides, slideVerdict_mayEnd, slideVerdict_mayGoOn, Intent.accepts_openTo, beq_iff_eq,
    Board.footing_eq_empty, Board.isEmpty_iff]

end Gait

/-! Rays. -/

theorem Dimensions.admits_between {d : Dimensions} {s : Square} {v : Step} {k : Nat}
    (start : d.contains s = true) (there : d.contains (s.along v k) = true) :
    d.admits (v.scale k) = true := by
  obtain ⟨_, _, _, _⟩ := contains_iff.1 start
  obtain ⟨low, left, high, right⟩ := contains_iff.1 there
  simp only [Square.along] at low left high right
  rw [admits_iff, Square.scale, Int.mul_comm, Int.mul_comm v.col]
  dsimp only
  omega

/-- No step that goes somewhere can be repeated more often than the reach of the board says. -/
theorem Dimensions.le_reach_of_admits {d : Dimensions} {v : Step} {k : Nat} (moves : v ≠ ⟨0, 0⟩)
    (admitted : d.admits (v.scale k) = true) : k ≤ d.reach := by
  obtain ⟨rows, cols⟩ := admits_iff.1 admitted
  have repeated {n : Int} (some_way : n ≠ 0) : k ≤ (n * k).natAbs := by
    rw [Int.natAbs_mul, Int.natAbs_natCast]
    exact Nat.le_mul_of_pos_left k (Int.natAbs_pos.2 some_way)
  unfold reach
  by_cases row : v.row = 0
  · have col : v.col ≠ 0 := by
      intro col
      exact moves (Square.ext row col)
    exact Nat.le_sub_one_of_lt (((repeated col).trans_lt cols).trans_le (le_max_right _ _))
  · exact Nat.le_sub_one_of_lt (((repeated row).trans_lt rows).trans_le (le_max_left _ _))

/-- The way of `k` steps from a piece to `t` stays on the board, and ends where no friend stands. -/
structure Piece.Ray (p : Piece) (b : Board) (v : Step) (k : Nat) (t : Square) : Prop where
  ends : p.square.along v k = t
  inside : ∀ j, 1 ≤ j → j ≤ k → b.contains (p.square.along v j) = true
  friendless : ∀ q, b.pieceOn t = some q → q.side ≠ p.side

namespace Piece

variable {p : Piece} {b : Board} {v : Step} {k : Nat} {t : Square}

theorem ray_succ_iff : p.Ray b v (k + 1) t ↔
    (∀ j, 1 ≤ j → j ≤ k → b.contains (p.square.along v j) = true) ∧ b.OpenTo p.side t ∧
      p.square.along v (k + 1) = t := by
  constructor
  · rintro ⟨rfl, inside, friendless⟩
    obtain ⟨before, last⟩ := forall_to_succ.1 inside
    exact ⟨before, ⟨last, friendless⟩, rfl⟩
  · rintro ⟨before, ⟨last, friendless⟩, rfl⟩
    exact ⟨rfl, forall_to_succ.2 ⟨before, last⟩, friendless⟩

/-- A step that goes nowhere leads to the piece itself, which is a friend. -/
theorem Ray.le_reach (ray : p.Ray b v k t) (stands : b.pieceOn p.square = some p) :
    k ≤ b.dims.reach := by
  rcases Nat.eq_zero_or_pos k with rfl | some_way
  · exact Nat.zero_le _
  have start := Board.contains_of_pieceOn stands
  refine Dimensions.le_reach_of_admits ?_ (Dimensions.admits_between start (ray.inside k some_way le_rfl))
  rintro rfl
  have there := ray.ends
  simp only [Square.along, Int.mul_zero, Int.add_zero] at there
  exact ray.friendless p (there ▸ stands) rfl

/-- Whatever the gait, it follows a ray. -/
theorem ray_of_landing {g : Gait} (heeds : g.Heeds)
    (leads : g.landing? .either b p (straightRoute v k) = some t) : p.Ray b v k t := by
  obtain ⟨inside, accepted⟩ := Gait.follow_lands heeds leads
  have there := Gait.follow_leads leads
  rw [Route.leads_straightRoute] at there
  exact ⟨there.symm, Route.forall_mem_stops_straight.1 (Gait.follow_inside leads),
    (Intent.accepts_openTo.1 ⟨inside, accepted⟩).2⟩

end Piece

/-- A motion that repeats its steps, as often as the board allows, leads where its gait follows a ray of
any such length: those that are left out are too long for the board. -/
theorem Mover.mem_destinations_rays {b : Board} {m : Motion} {steps : List Step} {fits : Nat → Prop}
    (rays : ∀ route, route ∈ m.routes b.dims ↔
      ∃ v ∈ reflected steps, ∃ k, (fits k ∧ k ≤ b.dims.reach) ∧ straightRoute v k = route)
    {p : Piece} (stands : b.pieceOn p.square = some p) {t : Square} :
    t ∈ (make b.dims m).destinations .either b p ↔ ∃ v, p.side.Heads steps v ∧
      ∃ k, fits k ∧ m.gait.landing? .either b p (straightRoute v k) = some t := by
  simp only [destinations, List.mem_filterMap, mem_routes_make, rays, Side.heads_iff, motion_make]
  constructor
  · rintro ⟨_, ⟨_, ⟨v, listed, k, ⟨long, _⟩, rfl⟩, rfl⟩, leads⟩
    rw [map_straightRoute] at leads
    exact ⟨_, ⟨v, listed, rfl⟩, k, long, leads⟩
  · rintro ⟨_, ⟨v, listed, rfl⟩, k, long, leads⟩
    have short := (Piece.ray_of_landing m.gait_heeds leads).le_reach stands
    rw [← map_straightRoute] at leads
    exact ⟨_, ⟨_, ⟨v, listed, k, ⟨long, short⟩, rfl⟩, rfl⟩, leads⟩

/-! A black piece at home, with an enemy before it and another further down, and a friend on its flank. -/

namespace Descent

def piece : Piece := .unmoved ⟨5, 1⟩ .black 0

def board : Board :=
  ((((Board.empty ⟨6, 4, 1⟩).set ⟨5, 1⟩ (some piece)).set ⟨4, 1⟩
    (some (.unmoved ⟨4, 1⟩ .white 0))).set ⟨2, 1⟩ (some (.unmoved ⟨2, 1⟩ .white 0))).set ⟨4, 2⟩
    (some (.unmoved ⟨4, 2⟩ .black 0))

theorem stands : board.pieceOn piece.square = some piece := by decide +kernel

end Descent

end VariantChess
