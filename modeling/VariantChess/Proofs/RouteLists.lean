import Mathlib.Data.List.Nodup
import VariantChess.Motion.Routes

/-!
What is on the lists of routes, and how often. A walker has every sequence of its steps of the lengths that
it may walk, a motion that repeats its steps has each of them at every length between its bounds, and a span
leaves out none of its leaps that fits on the board. Different steps make different routes, so that nothing is
listed twice.
-/

namespace VariantChess

theorem mem_between {low high n : Int} : n ∈ between low high ↔ low ≤ n ∧ n ≤ high := by
  simp only [between, List.mem_map, List.mem_range]
  constructor
  · rintro ⟨i, inside, rfl⟩
    omega
  · rintro ⟨above, under⟩
    exact ⟨(n - low).toNat, by omega, by omega⟩

theorem mem_reflected {steps : List Step} {v : Step} :
    v ∈ reflected steps ↔ ∃ s ∈ steps, v = s ∨ v = s.flipCol := by
  simp [reflected]

/-! Repeated steps. -/

theorem map_straightRoute (f : Step → Step) (v : Step) (k : Nat) :
    (straightRoute v k).map f = straightRoute (f v) k :=
  List.map_replicate

theorem mem_straightRoutes {steps : List Step} {shortest longest : Nat} {route : Route} :
    route ∈ straightRoutes steps shortest longest ↔
      ∃ v ∈ steps, ∃ k, (shortest ≤ k ∧ k ≤ longest) ∧ straightRoute v k = route := by
  have lengths (k : Nat) : k < shortest + (longest + 1 - shortest) ∧ shortest ≤ k ↔
      shortest ≤ k ∧ k ≤ longest := by omega
  simp only [straightRoutes, List.mem_flatMap, List.mem_map, List.mem_range'_1,
    and_comm (a := shortest ≤ _), lengths]

theorem straightRoute_inj {v w : Step} {j k : Nat} (some_way : 1 ≤ j)
    (same : straightRoute v j = straightRoute w k) : v = w ∧ j = k := by
  have lengths := congrArg List.length same
  simp only [straightRoute, List.length_replicate] at lengths
  have first : v ∈ straightRoute w k := same ▸ List.mem_replicate.2 ⟨Nat.ne_of_gt some_way, rfl⟩
  exact ⟨List.eq_of_mem_replicate first, lengths⟩

/-- Each step may have lengths of its own, as long as it is not repeated no times. -/
theorem nodup_flatMap_straightRoute {steps : List Step} (apart : steps.Nodup) {lengths : Step → List Nat}
    (some_way : ∀ v, ∀ k ∈ lengths v, 1 ≤ k) (once : ∀ v, (lengths v).Nodup) :
    (steps.flatMap fun v => (lengths v).map (straightRoute v)).Nodup := by
  rw [List.nodup_flatMap]
  constructor
  · intro v _
    refine List.Nodup.map_on ?_ (once v)
    intro j listed k _ same
    exact (straightRoute_inj (some_way v j listed) same).2
  · refine apart.imp ?_
    intro v w different route one other
    obtain ⟨j, listed, rfl⟩ := List.mem_map.1 one
    obtain ⟨k, _, same⟩ := List.mem_map.1 other
    exact different (straightRoute_inj (some_way v j listed) same.symm).1

theorem nodup_straightRoutes {steps : List Step} (apart : steps.Nodup) {shortest : Nat}
    (some_way : 1 ≤ shortest) (longest : Nat) : (straightRoutes steps shortest longest).Nodup := by
  refine nodup_flatMap_straightRoute apart ?_ fun _ => List.nodup_range'
  intro v k listed
  exact Nat.le_trans some_way (List.mem_range'_1.1 listed).1

theorem nil_not_mem_straightRoutes {steps : List Step} {shortest : Nat} (some_way : 1 ≤ shortest)
    (longest : Nat) : [] ∉ straightRoutes steps shortest longest := by
  intro listed
  obtain ⟨v, _, k, ⟨long, _⟩, none⟩ := mem_straightRoutes.1 listed
  rw [straightRoute, List.replicate_eq_nil_iff] at none
  omega

/-- A leapfrog without steps has no routes at any length. -/
theorem Motion.routes_leapfrog (d : Dimensions) (steps : List Step) (limit : Nat) :
    (leapfrog steps limit).routes d = (List.range' 1 (min limit (d.reach / 2))).flatMap fun hops =>
      (reflected steps).map (straightRoute · (2 * hops)) := by
  simp only [routes]
  split
  · rename_i none
    simp [none]
  · rfl

/-! All sequences of steps. -/

/-- The sequences of so many steps. -/
def layer (steps : List Step) : Nat → List Route
  | 0 => [[]]
  | n + 1 => lengthen steps (layer steps n)

section Layers

variable {steps : List Step} {route : Route} {fewest most n : Nat}

theorem mem_lengthen {routes : List Route} :
    route ∈ lengthen steps routes ↔ ∃ begun ∈ routes, ∃ s ∈ steps, begun ++ [s] = route := by
  simp only [lengthen, List.mem_flatMap, List.mem_map]

theorem mem_layer : route ∈ layer steps n ↔ route.length = n ∧ ∀ s ∈ route, s ∈ steps := by
  induction n generalizing route with
  | zero =>
      rw [layer, List.mem_singleton, List.length_eq_zero_iff]
      refine ⟨?_, And.left⟩
      rintro rfl
      exact ⟨rfl, List.forall_mem_nil _⟩
  | succ n ih =>
      rw [layer, mem_lengthen]
      constructor
      · rintro ⟨begun, listed, s, step, rfl⟩
        obtain ⟨length, each⟩ := ih.1 listed
        rw [List.length_append, length, List.forall_mem_append, List.forall_mem_singleton]
        exact ⟨rfl, each, step⟩
      · rintro ⟨length, each⟩
        obtain rfl | ⟨begun, s, rfl⟩ := List.eq_nil_or_concat' route
        · cases length
        · rw [List.length_append] at length
          rw [List.forall_mem_append, List.forall_mem_singleton] at each
          exact ⟨begun, ih.2 ⟨Nat.succ.inj length, each.1⟩, s, each.2, rfl⟩

theorem nodup_layer (apart : steps.Nodup) (n : Nat) : (layer steps n).Nodup := by
  induction n with
  | zero => exact List.nodup_singleton []
  | succ n ih =>
      rw [layer, lengthen, List.nodup_flatMap]
      constructor
      · intro begun _
        refine apart.map ?_
        intro s t same
        exact List.singleton_injective (List.append_cancel_left same)
      · refine ih.imp ?_
        intro begun other different route first second
        obtain ⟨s, _, rfl⟩ := List.mem_map.1 first
        obtain ⟨t, _, same⟩ := List.mem_map.1 second
        exact different (List.append_inj' same rfl).1.symm

theorem walks_nil (steps : List Step) (fewest length more : Nat) :
    walks steps fewest length more [] = [] := by
  cases more with
  | zero => rfl
  | succ more => rfl

theorem walks_succ (steps : List Step) (fewest length more : Nat) (routes : List Route) :
    walks steps fewest length (more + 1) routes =
      (if fewest ≤ length + 1 then lengthen steps routes else []) ++
        walks steps fewest (length + 1) more (lengthen steps routes) := by
  cases routes with
  | nil => simp [walks_nil, lengthen]
  | cons route routes => rfl

/-- One length after the other. -/
theorem walks_layer (steps : List Step) (fewest length more : Nat) :
    walks steps fewest length more (layer steps length) =
      (List.range' (length + 1) more).flatMap fun n => if fewest ≤ n then layer steps n else [] := by
  induction more generalizing length with
  | zero => rfl
  | succ more ih =>
      have next : lengthen steps (layer steps length) = layer steps (length + 1) := rfl
      rw [walks_succ, next, ih, List.range'_succ, List.flatMap_cons]

theorem walkerRoutes_eq_flatMap (steps : List Step) (fewest most : Nat) :
    walkerRoutes steps fewest most =
      (List.range' 1 most).flatMap fun n => if fewest ≤ n then layer steps n else [] :=
  walks_layer steps fewest 0 most

theorem mem_walkerRoutes : route ∈ walkerRoutes steps fewest most ↔
    (max fewest 1 ≤ route.length ∧ route.length ≤ most) ∧ ∀ s ∈ route, s ∈ steps := by
  simp only [walkerRoutes_eq_flatMap, List.mem_flatMap, List.mem_range'_1, List.mem_ite_nil_right, mem_layer]
  constructor
  · rintro ⟨_, within, enough, rfl, each⟩
    exact ⟨by omega, each⟩
  · rintro ⟨within, each⟩
    exact ⟨route.length, by omega, by omega, rfl, each⟩

theorem nodup_walkerRoutes (apart : steps.Nodup) (fewest most : Nat) :
    (walkerRoutes steps fewest most).Nodup := by
  rw [walkerRoutes_eq_flatMap, List.nodup_flatMap]
  constructor
  · intro n _
    split
    · exact nodup_layer apart n
    · exact List.nodup_nil
  · refine List.Pairwise.imp ?_ List.nodup_range'
    intro j k different route first second
    rw [List.mem_ite_nil_right, mem_layer] at first second
    exact different (first.2.1.symm.trans second.2.1)

end Layers

/-! Leaps. -/

theorem Dimensions.admits_iff {d : Dimensions} {v : Step} :
    d.admits v = true ↔ v.row.natAbs < d.rows ∧ v.col.natAbs < d.cols := by
  simp [admits]

theorem mem_leapsOf {m n : Int} {v : Step} : v ∈ leapsOf m n ↔
    (v.row = m ∨ v.row = -m) ∧ (v.col = n ∨ v.col = -n) ∨
      (v.row = n ∨ v.row = -n) ∧ (v.col = m ∨ v.col = -m) := by
  obtain ⟨row, col⟩ := v
  simp only [leapsOf, List.mem_cons, List.not_mem_nil, or_false, Square.mk.injEq]
  grind

namespace LeapSpan

/-- A step of `m` squares along the one axis and `n` along the other, which does not stand still. -/
def Holds (r : LeapSpan) (v : Step) : Prop :=
  v ≠ ⟨0, 0⟩ ∧ ∃ m n, (r.mMin ≤ m ∧ m ≤ r.mMax) ∧ (r.nMin ≤ n ∧ n ≤ r.nMax) ∧
    ((v.row = m ∨ v.row = -m) ∧ (v.col = n ∨ v.col = -n) ∨
      (v.row = n ∨ v.row = -n) ∧ (v.col = m ∨ v.col = -m))

variable {r : LeapSpan} {d : Dimensions} {v : Step}

/-- The bounds that the board sets to `m` and `n` leave out no leap that fits. -/
theorem mem_leaps : v ∈ r.leaps d ↔ r.Holds v ∧ d.admits v = true := by
  have moves : (!v.isZero) = true ↔ v ≠ ⟨0, 0⟩ := by
    obtain ⟨row, col⟩ := v
    simp [Square.isZero, imp_iff_not_or]
  simp only [leaps, List.mem_eraseDups, List.mem_flatMap, List.mem_filter, distances, mem_between,
    mem_leapsOf, Bool.and_eq_true, moves]
  constructor
  · rintro ⟨m, ⟨_, _⟩, n, ⟨_, _⟩, made, some_way, fits⟩
    exact ⟨⟨some_way, m, n, by omega, by omega, made⟩, fits⟩
  · rintro ⟨⟨some_way, m, n, _, _, made⟩, fits⟩
    obtain ⟨rows, cols⟩ := Dimensions.admits_iff.1 fits
    unfold Dimensions.reach
    exact ⟨m, by omega, n, by omega, made, some_way, fits⟩

end LeapSpan

end VariantChess
