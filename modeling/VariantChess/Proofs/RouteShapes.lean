import VariantChess.Proofs.RouteSymmetry

/-!
The shapes of routes. What holds of the steps of a motion, of their reflections and of its leaps holds of
every step on its routes. Walkers' routes have no more steps than they may take; all other routes repeat
one step, leapers' only once, and leapfrogs' an even number of times. Black's routes are of the same
shapes.
-/

namespace VariantChess

section Steps

variable {P : Step → Prop} {steps : List Step}

theorem forall_mem_reflected (turned : ∀ s, P s → P s.flipCol) (each : ∀ s ∈ steps, P s) :
    ∀ s ∈ reflected steps, P s := by
  intro s listed
  obtain ⟨t, given, rfl | rfl⟩ := mem_reflected.1 listed
  · exact each s given
  · exact turned t (each t given)

theorem forall_mem_straightRoutes (each : ∀ s ∈ steps, P s) (shortest longest : Nat) :
    ∀ route ∈ straightRoutes steps shortest longest, ∀ s ∈ route, P s := by
  intro route listed
  obtain ⟨s, step, length, _, rfl⟩ := mem_straightRoutes.1 listed
  intro t inside
  rw [List.eq_of_mem_replicate inside]
  exact each s step

end Steps

namespace Motion

/-- The steps of a motion that names them. -/
def steps : Motion → List Step
  | walker steps _ _ | rider steps | catapult steps | grasshopper steps | leapfrog steps _ => steps
  | leaper _ | leaprider _ => []

/-- The different leaps of a motion that has a span of them. -/
def leaps (d : Dimensions) : Motion → List Step
  | leaper span | leaprider span => span.leaps d
  | walker .. | rider _ | catapult _ | grasshopper _ | leapfrog .. => []

theorem forall_mem_routes {P : Step → Prop} (turned : ∀ s, P s → P s.flipCol) {d : Dimensions}
    {m : Motion} (each : ∀ s ∈ m.steps, P s) (far : ∀ s ∈ m.leaps d, P s) :
    ∀ route ∈ m.routes d, ∀ s ∈ route, P s := by
  cases m with
  | walker steps min max =>
      intro route listed s inside
      exact forall_mem_reflected turned each s ((mem_walkerRoutes.1 listed).2 s inside)
  | rider steps | catapult steps | grasshopper steps =>
      exact forall_mem_straightRoutes (forall_mem_reflected turned each) _ _
  | leaper span =>
      refine List.forall_mem_map.2 ?_
      intro leap listed
      exact List.forall_mem_singleton.2 (far leap listed)
  | leaprider span =>
      intro route listed
      obtain ⟨leap, among, repeated⟩ := List.mem_flatMap.1 listed
      refine forall_mem_straightRoutes ?_ _ _ route repeated
      exact List.forall_mem_singleton.2 (far leap among)
  | leapfrog steps limit =>
      have seeds := forall_mem_reflected turned each
      rw [routes_leapfrog]
      intro route listed
      simp only [List.mem_flatMap, List.mem_map] at listed
      obtain ⟨hops, _, s, among, rfl⟩ := listed
      intro t inside
      rw [List.eq_of_mem_replicate inside]
      exact seeds s among

/-- How many steps there are on a route of a motion, and whether they are all the same. -/
def Shape : Motion → Route → Prop
  | walker _ _ max, route => route.length ≤ max
  | leaper _, route => ∃ s, route = straightRoute s 1
  | leapfrog .., route => ∃ s hops, route = straightRoute s (2 * hops)
  | rider _, route | leaprider _, route | catapult _, route | grasshopper _, route =>
    ∃ s n, route = straightRoute s n

end Motion

theorem straight_of_mem_straightRoutes {steps : List Step} {shortest longest : Nat} {route : Route}
    (listed : route ∈ straightRoutes steps shortest longest) : ∃ s n, route = straightRoute s n := by
  obtain ⟨s, _, n, _, rfl⟩ := mem_straightRoutes.1 listed
  exact ⟨s, n, rfl⟩

theorem Motion.shape_of_mem_routes {d : Dimensions} {m : Motion} {route : Route}
    (listed : route ∈ m.routes d) : m.Shape route := by
  cases m with
  | walker steps min max => exact (mem_walkerRoutes.1 listed).1.2
  | rider steps | catapult steps | grasshopper steps => exact straight_of_mem_straightRoutes listed
  | leaper span =>
      obtain ⟨leap, _, rfl⟩ := List.mem_map.1 listed
      exact ⟨leap, rfl⟩
  | leaprider span =>
      obtain ⟨leap, _, repeated⟩ := List.mem_flatMap.1 listed
      exact straight_of_mem_straightRoutes repeated
  | leapfrog steps limit =>
      rw [routes_leapfrog] at listed
      simp only [List.mem_flatMap, List.mem_map] at listed
      obtain ⟨hops, _, s, _, rfl⟩ := listed
      exact ⟨s, hops, rfl⟩

/-! Either side's routes. -/

theorem Motion.Shape.flipRow {m : Motion} {route : Route} (h : m.Shape route) : m.Shape route.flipRow := by
  cases m with
  | walker steps min max =>
      change route.flipRow.length ≤ max
      rw [Route.flipRow, List.length_map]
      exact h
  | leaper span =>
      obtain ⟨s, rfl⟩ := h
      exact ⟨s.flipRow, map_straightRoute Square.flipRow s 1⟩
  | leapfrog steps limit =>
      obtain ⟨s, hops, rfl⟩ := h
      exact ⟨s.flipRow, hops, map_straightRoute Square.flipRow s _⟩
  | rider steps | leaprider span | catapult steps | grasshopper steps =>
      obtain ⟨s, n, rfl⟩ := h
      exact ⟨s.flipRow, n, map_straightRoute Square.flipRow s n⟩

namespace Mover

variable {d : Dimensions} {m : Motion} {side : Side} {route : Route}
  (listed : route ∈ (make d m).routes side)
include listed

theorem shape_of_mem_routes : m.Shape route := by
  cases side with
  | white => exact Motion.shape_of_mem_routes listed
  | black =>
      obtain ⟨white, among, rfl⟩ := List.mem_map.1 listed
      exact (Motion.shape_of_mem_routes among).flipRow

theorem forall_mem_of_mem_routes {P : Step → Prop} (sideways : ∀ s, P s → P s.flipCol)
    (back : ∀ s, P s → P s.flipRow) (each : ∀ s ∈ m.steps, P s) (far : ∀ s ∈ m.leaps d, P s) :
    ∀ s ∈ route, P s := by
  have forth := Motion.forall_mem_routes sideways each far
  cases side with
  | white => exact forth route listed
  | black =>
      obtain ⟨white, among, rfl⟩ := List.mem_map.1 listed
      exact List.forall_mem_map.2 fun s inside => back s (forth white among s inside)

end Mover

end VariantChess
