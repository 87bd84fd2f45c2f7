import Mathlib.Data.Set.Card
import VariantChess.Proofs.Slides

/-!
Walkers. A walker's routes are the sequences of its steps, each of them once, so a square is listed as often
as there are ways to walk there over empty squares. No walk comes back to where it started, for there stands
the walker itself.
-/

namespace VariantChess

/-- A way of the piece to a square: it may make each of the steps, comes over empty squares of the board,
and ends where no friend stands. -/
structure Piece.Walk (p : Piece) (b : Board) (steps : List Step) (route : Route) (t : Square) : Prop where
  makes : ∀ v ∈ route, p.side.Heads steps v
  clear : ∀ s ∈ (route.stops p.square).dropLast, b.isEmpty s = true
  ends : (route.stops p.square).getLast? = some t
  free : b.OpenTo p.side t

theorem Gait.slide_follows {b : Board} {p : Piece} {route : Route} {t : Square} :
    slide.landing? .either b p route = some t ↔
      (∀ s ∈ (route.stops p.square).dropLast, b.isEmpty s = true) ∧
      (route.stops p.square).getLast? = some t ∧ b.OpenTo p.side t := by
  obtain rfl | ⟨begun, last, rfl⟩ := List.eq_nil_or_concat' route
  · simp [landing?, follow]
  · rw [landing?, follow_sliding fun _ => rfl, Route.stops_concat, List.dropLast_concat,
      List.getLast?_concat, Option.some.injEq, and_comm (a := b.OpenTo p.side t)]

theorem Piece.Walk.never_home {p : Piece} {b : Board} {steps : List Step} {route : Route} {t : Square}
    (walk : p.Walk b steps route t) (stands : b.pieceOn p.square = some p) :
    p.square ∉ route.stops p.square := by
  intro home
  rw [← List.dropLast_append_getLast? t walk.ends, List.mem_append, List.mem_singleton] at home
  rcases home with before | last
  · have empty := (Board.isEmpty_iff.1 (walk.clear _ before)).2
    rw [stands] at empty
    cases empty
  · exact walk.free.2 p (last ▸ stands) rfl

namespace Mover

theorem mem_routes_walker {d : Dimensions} {steps : List Step} {fewest most : Nat} {side : Side}
    {route : Route} : route ∈ (make d (.walker steps fewest most)).routes side ↔
      (max fewest 1 ≤ route.length ∧ route.length ≤ most) ∧ ∀ v ∈ route, side.Heads steps v := by
  simp only [mem_routes_make, Motion.routes, mem_walkerRoutes]
  constructor
  · rintro ⟨given, ⟨within, each⟩, rfl⟩
    rw [List.length_map, List.forall_mem_map]
    exact ⟨within, fun v listed => Side.heads_iff.2 ⟨v, each v listed, rfl⟩⟩
  · rintro ⟨within, each⟩
    refine ⟨route.map side.turn, ?_, ?_⟩
    · rw [List.length_map, List.forall_mem_map]
      refine ⟨within, ?_⟩
      intro v listed
      obtain ⟨s, seed, rfl⟩ := Side.heads_iff.1 (each v listed)
      rwa [Side.turn_turn]
    · simp [Function.comp_def]

/-- A square is listed once for every route that leads there. -/
theorem encard_routes {m : Mover} {p : Piece} (apart : (m.routes p.side).Nodup) (i : Intent) (b : Board)
    (t : Square) :
    {route | route ∈ m.routes p.side ∧ m.motion.gait.landing? i b p route = some t}.encard =
      (m.destinations i b p).count t := by
  let leading := (m.routes p.side).filter fun route => m.motion.gait.landing? i b p route == some t
  have same : {route | route ∈ m.routes p.side ∧ m.motion.gait.landing? i b p route = some t} =
      (leading.toFinset : Set Route) := by
    ext route
    simp [leading]
  rw [same, Set.encard_coe_eq_coe_finsetCard, List.toFinset_card_of_nodup (apart.filter _), destinations,
    List.count_filterMap, List.countP_eq_length_filter]

/-- Without steps, or with bounds that leave no length, there are no walks. -/
theorem walker_counts {b : Board} {p : Piece} (stands : b.pieceOn p.square = some p) (steps : List Step)
    (fewest most : Nat) :
    (∀ t, (((make b.dims (.walker steps fewest most)).destinations .either b p).count t : ENat) =
      {route | (max fewest 1 ≤ route.length ∧ route.length ≤ most) ∧ p.Walk b steps route t}.encard) ∧
    ∀ route t, p.Walk b steps route t → p.square ∉ route.stops p.square := by
  refine ⟨?_, fun route t walk => walk.never_home stands⟩
  intro t
  have distinct : ((Motion.walker steps fewest most).routes b.dims).Nodup :=
    nodup_walkerRoutes (nodup_eraseDups _) fewest most
  have apart := nodup_routes_make distinct p.side
  rw [← encard_routes apart]
  congr 1
  ext route
  rw [Set.mem_ofPred_eq, Set.mem_ofPred_eq, mem_routes_walker, and_assoc]
  refine and_congr_right fun _ => ?_
  constructor
  · rintro ⟨makes, leads⟩
    obtain ⟨clear, ends, free⟩ := Gait.slide_follows.1 leads
    exact ⟨makes, clear, ends, free⟩
  · rintro ⟨makes, clear, ends, free⟩
    exact ⟨makes, Gait.slide_follows.2 ⟨clear, ends, free⟩⟩

end Mover

open Descent in
/-- One step takes the enemy in front, and there are three ways to take it with two. -/
theorem Descent.walks_down : board.pieceOn piece.square = some piece ∧
    {route | (max 0 1 ≤ route.length ∧ route.length ≤ 2) ∧
      piece.Walk board Step.canonical route ⟨4, 1⟩}.encard = 4 := by
  have listed : ((Mover.make board.dims (.walker Step.canonical 0 2)).destinations .either board
      piece).count ⟨4, 1⟩ = 4 := by decide +kernel
  obtain ⟨counts, _⟩ := Mover.walker_counts stands Step.canonical 0 2
  exact ⟨stands, (counts _).symm.trans (congrArg _ listed)⟩

end VariantChess
