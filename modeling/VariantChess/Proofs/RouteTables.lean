import VariantChess.Proofs.Expansions

/-!
The tables of routes. Whatever steps and bounds a motion is given, also steps that stand still or come twice
and bounds in the wrong order, its routes all go on for a step at least, each is there once, and so is its
reflection from left to right. Leaps do not tell the sides apart either. All this holds of every table that
is worked out; that there is one takes steps that can be turned round and a board that is small enough.
-/

namespace VariantChess

/-- What a list is mapped to lies in it if it is closed under the map, and all of it if mapping twice
changes nothing. -/
theorem ClosedUnder.mem_map_iff {α : Type} {f : α → α} {xs : List α} (closed : ClosedUnder f xs)
    (twice : Function.Involutive f) {x : α} : x ∈ xs.map f ↔ x ∈ xs := by
  constructor
  · intro listed
    obtain ⟨y, given, rfl⟩ := List.mem_map.1 listed
    exact closed y given
  · intro listed
    exact List.mem_map.2 ⟨f x, closed x listed, twice x⟩

namespace Motion

variable {d : Dimensions} {m : Motion}

theorem nil_not_mem_routes (d : Dimensions) (m : Motion) : [] ∉ m.routes d := by
  cases m with
  | walker steps min max =>
      intro listed
      obtain ⟨⟨long, _⟩, _⟩ := mem_walkerRoutes.1 listed
      rw [List.length_nil] at long
      omega
  | rider steps => exact nil_not_mem_straightRoutes le_rfl _
  | catapult steps | grasshopper steps => exact nil_not_mem_straightRoutes one_le_two _
  | leaper span =>
      intro listed
      obtain ⟨v, _, none⟩ := List.mem_map.1 listed
      cases none
  | leaprider span =>
      intro listed
      obtain ⟨v, _, repeated⟩ := List.mem_flatMap.1 listed
      exact nil_not_mem_straightRoutes le_rfl _ repeated
  | leapfrog steps limit =>
      rw [routes_leapfrog]
      intro listed
      simp only [List.mem_flatMap, List.mem_map, straightRoute, List.replicate_eq_nil_iff] at listed
      obtain ⟨hops, within, _, _, none⟩ := listed
      have some_way := (List.mem_range'_1.1 within).1
      omega

theorem nodup_routes (d : Dimensions) (m : Motion) : (m.routes d).Nodup := by
  cases m with
  | walker steps min max => exact nodup_walkerRoutes (nodup_eraseDups _) min max
  | rider steps => exact nodup_straightRoutes (nodup_eraseDups _) le_rfl _
  | catapult steps | grasshopper steps => exact nodup_straightRoutes (nodup_eraseDups _) one_le_two _
  | leaper span => exact (span.nodup_leaps d).map List.singleton_injective
  | leaprider span =>
      simp only [routes, straightRoutes, List.flatMap_singleton]
      refine nodup_flatMap_straightRoute (span.nodup_leaps d) ?_ fun _ => List.nodup_range'
      intro v k listed
      exact (List.mem_range'_1.1 listed).1
  | leapfrog steps limit =>
      -- Here the lengths come first, and each has all the steps.
      rw [routes_leapfrog, List.nodup_flatMap]
      constructor
      · intro hops within
        have some_way := (List.mem_range'_1.1 within).1
        refine List.Nodup.map ?_ (nodup_eraseDups _)
        intro v w same
        exact (straightRoute_inj (by omega) same).1
      · refine List.Pairwise.imp ?_ List.nodup_range'
        intro j k different route first second
        obtain ⟨v, _, rfl⟩ := List.mem_map.1 first
        obtain ⟨w, _, same⟩ := List.mem_map.1 second
        have lengths := congrArg List.length same
        simp only [straightRoute, List.length_replicate] at lengths
        omega

/-- A leap back is as long as the leap ahead, so that it may be repeated as often. -/
theorem closed_flipRow_of_often {span : LeapSpan} {often : Nat → Prop} {table : List Route}
    (leaps : ∀ route, route ∈ table ↔ ∃ v, span.Holds v ∧
      ∃ k, often k ∧ d.admits (v.scale k) = true ∧ straightRoute v k = route) :
    ClosedUnder Route.flipRow table := by
  intro route listed
  obtain ⟨v, holds, k, long, fits, rfl⟩ := (leaps route).1 listed
  have back : d.admits ((Side.black.turn v).scale k) = true := by
    rwa [Dimensions.admits_scale_turn]
  exact (leaps _).2 ⟨_, holds.turn .black, k, long, back, (map_straightRoute Square.flipRow v k).symm⟩

theorem closed_flipRow {span : LeapSpan} (leaps : m = .leaper span ∨ m = .leaprider span) :
    ClosedUnder Route.flipRow (m.routes d) := by
  rcases leaps with rfl | rfl
  · exact closed_flipRow_of_often fun _ => mem_routes_leaper
  · exact closed_flipRow_of_often fun _ => mem_routes_leaprider

example : (walker [⟨0, 1⟩, ⟨0, 0⟩, ⟨0, -1⟩] 0 1).routes ⟨4, 4, 1⟩ = [[⟨0, 1⟩], [⟨0, -1⟩], [⟨0, 0⟩]] := by
  decide

end Motion

end VariantChess
