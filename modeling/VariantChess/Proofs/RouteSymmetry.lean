import VariantChess.Proofs.Reflection
import VariantChess.Proofs.RouteLists

/-!
Routes turned over. Black's routes are White's with the ranks reversed, by construction. That every
route has its reflection among the others is a property of each motion: its steps and leaps come in
pairs, and what is made of them treats both of a pair alike. So the movers that are made for a motion
look the same from every end of the board; stored ones need not.
-/

namespace VariantChess

/-- A list that holds the image of each of its items. -/
def ClosedUnder {α : Type} (f : α → α) (xs : List α) : Prop := ∀ x ∈ xs, f x ∈ xs

namespace ClosedUnder

variable {α β : Type} {f : α → α} {g : β → β} {xs : List α}

theorem identity (xs : List α) : ClosedUnder id xs := fun _ listed => listed

theorem map (closed : ClosedUnder f xs) {h : α → β} (commute : ∀ x, g (h x) = h (f x)) :
    ClosedUnder g (xs.map h) := by
  intro y listed
  obtain ⟨x, given, rfl⟩ := List.mem_map.1 listed
  exact List.mem_map.2 ⟨f x, closed x given, (commute x).symm⟩

theorem flatMap (closed : ClosedUnder f xs) {h : α → List β}
    (image : ∀ x, ∀ y ∈ h x, g y ∈ h (f x)) : ClosedUnder g (xs.flatMap h) := by
  intro y listed
  obtain ⟨x, given, made⟩ := List.mem_flatMap.1 listed
  exact List.mem_flatMap.2 ⟨f x, closed x given, image x y made⟩

end ClosedUnder

def Route.flipCol (route : Route) : Route := route.map Square.flipCol

theorem flipCol_mem_straight {s : Step} {route : Route} {lengths : List Nat}
    (listed : route ∈ lengths.map (straightRoute s)) :
    route.flipCol ∈ lengths.map (straightRoute s.flipCol) := by
  obtain ⟨length, fits, rfl⟩ := List.mem_map.1 listed
  exact List.mem_map.2 ⟨length, fits, (map_straightRoute Square.flipCol s length).symm⟩

theorem reflected_closed (steps : List Step) : ClosedUnder Square.flipCol (reflected steps) := by
  intro s listed
  obtain ⟨t, given, rfl | rfl⟩ := mem_reflected.1 listed
  · exact mem_reflected.2 ⟨s, given, .inr rfl⟩
  · exact mem_reflected.2 ⟨t, given, .inl (Square.flipCol_flipCol t)⟩

theorem walkerRoutes_closed {steps : List Step} (paired : ClosedUnder Square.flipCol steps)
    (min max : Nat) : ClosedUnder Route.flipCol (walkerRoutes steps min max) := by
  intro route listed
  obtain ⟨within, each⟩ := mem_walkerRoutes.1 listed
  rw [mem_walkerRoutes, Route.flipCol, List.length_map, List.forall_mem_map]
  exact ⟨within, fun s inside => paired s (each s inside)⟩

theorem straightRoutes_closed {steps : List Step} (paired : ClosedUnder Square.flipCol steps)
    (shortest longest : Nat) : ClosedUnder Route.flipCol (straightRoutes steps shortest longest) :=
  paired.flatMap fun _ _ => flipCol_mem_straight

theorem leapsOf_closed (m n : Int) : ClosedUnder Square.flipCol (leapsOf m n) := by
  intro s listed
  rw [mem_leapsOf] at listed ⊢
  dsimp only [Square.flipCol]
  omega

@[simp] theorem isZero_flipCol (s : Step) : s.flipCol.isZero = s.isZero := by
  rw [Bool.eq_iff_iff]
  simp [Square.isZero, Square.flipCol]

@[simp] theorem admits_flipCol (d : Dimensions) (s : Step) : d.admits s.flipCol = d.admits s := by
  change (decide (s.row.natAbs < d.rows) && decide ((-s.col).natAbs < d.cols)) = d.admits s
  rw [Int.natAbs_neg, Dimensions.admits]

theorem leaps_closed (span : LeapSpan) (d : Dimensions) :
    ClosedUnder Square.flipCol (span.leaps d) := by
  intro s listed
  simp only [LeapSpan.leaps, List.mem_eraseDups, List.mem_flatMap, List.mem_filter] at listed ⊢
  obtain ⟨m, far, n, wide, leap, fits⟩ := listed
  exact ⟨m, far, n, wide, leapsOf_closed m n s leap, by simpa using fits⟩

@[simp] theorem repeats_flipCol (d : Dimensions) (leap : Step) :
    repeats d leap.flipCol = repeats d leap := by
  simp [repeats, Square.flipCol]

theorem Motion.routes_closed (d : Dimensions) (motion : Motion) :
    ClosedUnder Route.flipCol (motion.routes d) := by
  cases motion with
  | walker steps min max => exact walkerRoutes_closed (reflected_closed steps) min max
  | leaper span => exact (leaps_closed span d).map fun leap => rfl
  | leaprider span =>
      apply (leaps_closed span d).flatMap
      intro leap route listed
      simp only [straightRoutes, List.flatMap_cons, List.flatMap_nil, List.append_nil,
        repeats_flipCol] at listed ⊢
      exact flipCol_mem_straight listed
  | rider steps | catapult steps | grasshopper steps =>
      exact straightRoutes_closed (reflected_closed steps) _ _
  | leapfrog steps limit =>
      rw [routes_leapfrog]
      apply (ClosedUnder.identity _).flatMap
      intro hops
      exact (reflected_closed steps).map fun s => map_straightRoute Square.flipCol s (2 * hops)

/-! Movers that look the same when the board is turned over. -/

/-- Each route, turned over, is one of the side that takes its place. -/
def Mover.Symmetric (r : Reflection) (m : Mover) : Prop :=
  ∀ side, ∀ route ∈ m.routes side, route.map r.step ∈ m.routes (r.side side)

@[simp] theorem Route.flipRow_flipRow (route : Route) : route.flipRow.flipRow = route := by
  simp [flipRow, Function.comp_def]

theorem Route.flipCol_flipRow (route : Route) : route.flipRow.flipCol = route.flipCol.flipRow := by
  simp [flipRow, flipCol, Square.flipRow, Square.flipCol]

theorem Mover.symmetric_make (r : Reflection) (d : Dimensions) (motion : Motion) :
    (make d motion).Symmetric r := by
  intro side route listed
  cases r with
  | ranks =>
      change route.flipRow ∈ (make d motion).routes side.other
      cases side with
      | white => exact List.mem_map_of_mem listed
      | black =>
          obtain ⟨whites, given, rfl⟩ := List.mem_map.1 listed
          rwa [Route.flipRow_flipRow]
  | files =>
      change route.flipCol ∈ (make d motion).routes side
      have closed := motion.routes_closed d
      cases side with
      | white => exact closed route listed
      | black => exact closed.map Route.flipCol_flipRow route listed

/-! Rosters of such movers. -/

namespace Roster

/-- Every mover of every type was made for some motion, on some board. -/
def Made (types : Roster) : Prop :=
  ∀ t ∈ types, ∀ m ∈ t.rule.parts, ∃ d motion, m = Mover.make d motion

def Symmetric (r : Reflection) (types : Roster) : Prop :=
  ∀ t ∈ types, ∀ m ∈ t.rule.parts, m.Symmetric r

theorem Made.symmetric {types : Roster} (made : types.Made) (r : Reflection) :
    types.Symmetric r := by
  intro t listed m part
  obtain ⟨d, motion, rfl⟩ := made t listed m part
  exact Mover.symmetric_make r d motion

theorem Symmetric.turned {r : Reflection} {types : Roster} (symmetric : types.Symmetric r)
    (d : Dimensions) : (r.roster d types).Symmetric r := by
  intro t listed m part
  obtain ⟨t, given, rfl⟩ := List.mem_map.1 listed
  exact symmetric t given m (by simpa using part)

theorem made_of_build {types : Roster} (built : ∀ t ∈ types, ∃ d plan, t.rule = Plan.build d plan) :
    types.Made := by
  intro t listed m part
  obtain ⟨d, plan, rule⟩ := built t listed
  rw [rule, Plan.build, Pattern.parts_map] at part
  obtain ⟨motion, _, rfl⟩ := List.mem_map.1 part
  exact ⟨d, motion, rfl⟩

end Roster

end VariantChess
