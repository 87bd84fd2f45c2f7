import VariantChess.Proofs.Rays

/-!
Hoppers. What a catapult, a grasshopper and a leapfrog remember on their way comes down to which of the squares
behind them were held: a catapult slides once it has left a held square behind, a grasshopper lands on the
square after the first one that is held, and a leapfrog needs a held square before each of its landings. So
the squares where they land are told by what stands on the ray to them.
-/

namespace VariantChess

/-- A square of the board on which any piece stands. -/
def Board.Held (b : Board) (s : Square) : Prop := b.contains s = true ∧ b.pieceOn s ≠ none

namespace Gait

variable {b : Board} {side : Side} {s t : Square} {first second last : Step} {rest route : Route}

/-! Catapults. -/

/-- What a catapult remembers after a held square. -/
def launched : catapult.Memory := true

theorem judge_launched (f : Footing) :
    catapult.judge .either f launched = (slideVerdict .either f, launched) := rfl

theorem catapult_begins (more : rest ≠ []) :
    catapult.follow .either b side catapult.start s (first :: rest) = some t ↔
      b.Held (s + first) ∧ catapult.follow .either b side launched (s + first) rest = some t := by
  have begun (f : Footing) : catapult.judge .either f catapult.start =
      if f = .empty then (.block, catapult.start) else (.hop, launched) := rfl
  rw [follow_cons_eq_some more, begun]
  by_cases empty : b.pieceOn (s + first) = none
  · simp [Board.footing_eq_empty.2 empty, Board.Held, empty, Verdict.mayGoOn]
  · have held : b.footing side (s + first) ≠ .empty := Board.footing_eq_empty.not.2 empty
    simp [held, Board.Held, empty, Verdict.mayGoOn]

theorem catapult_follow :
    catapult.follow .either b side catapult.start s (first :: (route ++ [last])) = some t ↔
      b.Held (s + first) ∧ (∀ u ∈ route.stops (s + first), b.isEmpty u = true) ∧ b.OpenTo side t ∧
        route.leads (s + first) + last = t := by
  rw [catapult_begins (List.append_ne_nil_of_right_ne_nil _ (List.cons_ne_nil _ _)),
    follow_sliding judge_launched]

/-! Grasshoppers. -/

/-- What a grasshopper remembers after a held square. -/
def hopped : grasshopper.Memory := true

theorem grasshopper_lands : grasshopper.follow .either b side hopped s [last] = some t ↔
    b.OpenTo side t ∧ s + last = t := by
  have lands (f : Footing) : grasshopper.judge .either f hopped = (landVerdict .either f, hopped) := rfl
  rw [follow_singleton_eq_some, lands, landVerdict_mayEnd, ← and_assoc, Intent.accepts_openTo]

/-- Past the square that is held it makes one step only. -/
theorem grasshopper_stops (more : 1 < route.length) :
    grasshopper.follow .either b side hopped s route ≠ some t := by
  have lands (f : Footing) : grasshopper.judge .either f hopped = (landVerdict .either f, hopped) := rfl
  obtain ⟨first, second, rest, rfl⟩ : ∃ first second rest, route = first :: second :: rest := by
    match route, more with
    | first :: second :: rest, _ => exact ⟨first, second, rest, rfl⟩
  rw [Ne, follow_cons_eq_some (List.cons_ne_nil _ _), lands, landVerdict_mayGoOn]
  simp

theorem grasshopper_hops_nowhere :
    grasshopper.follow .either b side grasshopper.start s [last] ≠ some t := by
  have hops (f : Footing) : (grasshopper.judge .either f grasshopper.start).1 = .hop := rfl
  rw [Ne, follow_singleton_eq_some, hops]
  simp [Verdict.mayEnd]

theorem grasshopper_begins_empty (more : rest ≠ []) (empty : b.pieceOn (s + first) = none) :
    grasshopper.follow .either b side grasshopper.start s (first :: rest) = some t ↔
      b.contains (s + first) = true ∧
      grasshopper.follow .either b side grasshopper.start (s + first) rest = some t := by
  have begun : grasshopper.judge .either .empty grasshopper.start = (.hop, grasshopper.start) := rfl
  rw [follow_cons_eq_some more, Board.footing_eq_empty.2 empty, begun]
  simp [Verdict.mayGoOn]

theorem grasshopper_begins_held (more : rest ≠ []) (held : b.pieceOn (s + first) ≠ none) :
    grasshopper.follow .either b side grasshopper.start s (first :: rest) = some t ↔
      b.contains (s + first) = true ∧
      grasshopper.follow .either b side hopped (s + first) rest = some t := by
  have begun {f : Footing} (h : f ≠ .empty) :
      grasshopper.judge .either f grasshopper.start = (.hop, hopped) := by
    cases f with
    | empty => exact (h rfl).elim
    | friend | enemy => rfl
  rw [follow_cons_eq_some more, begun (Board.footing_eq_empty.not.2 held)]
  simp [Verdict.mayGoOn]

/-- A held square further back would already be the last but one. -/
theorem grasshopper_follow :
    grasshopper.follow .either b side grasshopper.start s (route ++ [first, last]) = some t ↔
      (∀ u ∈ route.stops s, b.isEmpty u = true) ∧ b.Held (route.leads s + first) ∧ b.OpenTo side t ∧
        route.leads s + first + last = t := by
  induction route generalizing s with
  | nil =>
      by_cases empty : b.pieceOn (s + first) = none
      · have nowhere : grasshopper.follow .either b side grasshopper.start (s + first) [last] ≠ some t :=
          grasshopper_hops_nowhere
        simp [grasshopper_begins_empty, empty, nowhere, Board.Held]
      · simp [grasshopper_begins_held, grasshopper_lands, empty, Board.Held]
  | cons step rest ih =>
      have more : rest ++ [first, last] ≠ [] :=
        List.append_ne_nil_of_right_ne_nil _ (List.cons_ne_nil _ _)
      rw [List.cons_append, Route.stops_cons, List.forall_mem_cons, Board.isEmpty_iff, Route.leads_cons]
      by_cases empty : b.pieceOn (s + step) = none
      · rw [grasshopper_begins_empty more empty, ih]
        simp [empty, and_assoc]
      · rw [grasshopper_begins_held more empty]
        have stopped : grasshopper.follow .either b side hopped (s + step) (rest ++ [first, last]) ≠ some t :=
          grasshopper_stops (by simp)
        simp [stopped, empty]

/-! Leapfrogs. -/

/-- What a leapfrog remembers after so many steps. -/
def taken (n : Nat) : leapfrog.Memory := n

section Leapfrog

variable {n : Nat} (even : n % 2 = 0)
include even

theorem leapfrog_begins (more : rest ≠ []) :
    leapfrog.follow .either b side (taken n) s (first :: rest) = some t ↔
      b.Held (s + first) ∧ leapfrog.follow .either b side (taken (n + 1)) (s + first) rest = some t := by
  have begun (f : Footing) : leapfrog.judge .either f (taken n) =
      (if f = .empty then .block else .hop, taken (n + 1)) := if_pos even
  rw [follow_cons_eq_some more, begun]
  by_cases empty : b.pieceOn (s + first) = none
  · simp [Board.footing_eq_empty.2 empty, Board.Held, empty, Verdict.mayGoOn]
  · have held : b.footing side (s + first) ≠ .empty := Board.footing_eq_empty.not.2 empty
    simp [held, Board.Held, empty, Verdict.mayGoOn]

theorem judge_taken_odd (f : Footing) :
    leapfrog.judge .either f (taken (n + 1)) = (slideVerdict .either f, taken (n + 2)) := by
  have odd : (n + 1) % 2 ≠ 0 := by omega
  exact if_neg odd

theorem leapfrog_lands : leapfrog.follow .either b side (taken n) s [first, last] = some t ↔
    b.Held (s + first) ∧ b.OpenTo side t ∧ s + first + last = t := by
  rw [leapfrog_begins even (List.cons_ne_nil _ _), follow_singleton_eq_some, judge_taken_odd even,
    slideVerdict_mayEnd, ← and_assoc (a := b.contains t = true), Intent.accepts_openTo]

theorem leapfrog_goes_on (more : rest ≠ []) :
    leapfrog.follow .either b side (taken n) s (first :: second :: rest) = some t ↔
      b.Held (s + first) ∧ b.isEmpty (s + first + second) = true ∧
        leapfrog.follow .either b side (taken (n + 2)) (s + first + second) rest = some t := by
  rw [leapfrog_begins even (List.cons_ne_nil _ _), follow_cons_eq_some more, judge_taken_odd even,
    slideVerdict_mayGoOn, beq_iff_eq, Board.footing_eq_empty, ← and_assoc (a := b.contains _ = true),
    Board.isEmpty_iff]

end Leapfrog

/-- The induction is on the hops, with any even number of steps taken before. -/
theorem leapfrog_follow {v : Step} {n : Nat} (even : n % 2 = 0) (hops : Nat) :
    leapfrog.follow .either b side (taken n) s (straightRoute v (2 * (hops + 1))) = some t ↔
      (∀ j < hops + 1, b.Held (s.along v (2 * j + 1))) ∧
      (∀ j < hops, b.isEmpty (s.along v (2 * j + 2)) = true) ∧ b.OpenTo side t ∧
      s.along v (2 * hops + 2) = t := by
  induction hops generalizing s n with
  | zero =>
      have route : straightRoute v (2 * (0 + 1)) = [v, v] := rfl
      rw [route, leapfrog_lands even]
      simp [Square.along_succ]
  | succ hops ih =>
      have route : straightRoute v (2 * (hops + 1 + 1)) = v :: v :: straightRoute v (2 * (hops + 1)) := rfl
      have later : (n + 2) % 2 = 0 := by omega
      have one : s.along v (2 * 0 + 1) = s + v := s.along_one v
      have two : s.along v (2 * 0 + 2) = s + v + v := by rw [Square.along_succ, one]
      have ahead (j k : Nat) : s.along v (2 * (j + 1) + k) = (s + v + v).along v (2 * j + k) := by
        rw [Square.along_after, Square.along_after]
        congr 1
        omega
      have odd : (∀ j < hops + 1 + 1, b.Held (s.along v (2 * j + 1))) ↔
          b.Held (s + v) ∧ ∀ j < hops + 1, b.Held ((s + v + v).along v (2 * j + 1)) := by
        rw [Nat.forall_lt_succ_left, one]
        simp only [ahead]
      have between : (∀ j < hops + 1, b.isEmpty (s.along v (2 * j + 2)) = true) ↔
          b.isEmpty (s + v + v) = true ∧
            ∀ j < hops, b.isEmpty ((s + v + v).along v (2 * j + 2)) = true := by
        rw [Nat.forall_lt_succ_left, two]
        simp only [ahead]
      rw [route, leapfrog_goes_on even (by simp [straightRoute]), ih later, odd, between, ahead]
      tauto

/-! Rays that they follow. -/

section Rays

variable {p : Piece} {v : Step} {k : Nat}

theorem catapult_ray (far : 2 ≤ k) :
    catapult.landing? .either b p (straightRoute v k) = some t ↔ p.Ray b v k t ∧
      b.pieceOn (p.square.along v 1) ≠ none ∧
      ∀ j, 2 ≤ j → j < k → b.pieceOn (p.square.along v j) = none := by
  obtain ⟨k, rfl⟩ := Nat.exists_eq_add_of_le' far
  have route : straightRoute v (k + 2) = v :: (straightRoute v k ++ [v]) :=
    congrArg (v :: ·) (Route.straight_succ v k)
  have ahead : (∀ j, 1 ≤ j → j ≤ k → b.isEmpty ((p.square + v).along v j) = true) ↔
      ∀ j, 2 ≤ j → j < k + 2 → b.isEmpty (p.square.along v j) = true := by
    simp only [Square.along_after]
    constructor
    · intro each j first within
      obtain ⟨j, rfl⟩ := Nat.exists_eq_add_of_le' first
      exact each (j + 1) (by omega) (by omega)
    · intro each j first within
      exact each (j + 1) (by omega) (by omega)
  rw [landing?, route, catapult_follow, Route.forall_mem_stops_straight, ahead, Route.leads_straightRoute,
    ← Square.along_succ, Square.along_after, Piece.ray_succ_iff, forall_from_one, Square.along_one]
  constructor
  · rintro ⟨⟨inside, held⟩, empty, arrives⟩
    have free j first within := Board.isEmpty_iff.1 (empty j first within)
    exact ⟨⟨⟨inside, fun j first within => (free j first within).1⟩, arrives⟩, held,
      fun j first within => (free j first within).2⟩
  · rintro ⟨⟨⟨inside, others⟩, arrives⟩, held, empty⟩
    exact ⟨⟨inside, held⟩,
      fun j first within => Board.isEmpty_iff.2 ⟨others j first within, empty j first within⟩, arrives⟩

theorem grasshopper_ray (far : 2 ≤ k) :
    grasshopper.landing? .either b p (straightRoute v k) = some t ↔ p.Ray b v k t ∧
      (∀ j, 1 ≤ j → j + 1 < k → b.pieceOn (p.square.along v j) = none) ∧
      b.pieceOn (p.square.along v (k - 1)) ≠ none := by
  obtain ⟨k, rfl⟩ := Nat.exists_eq_add_of_le' far
  have route : straightRoute v (k + 2) = straightRoute v k ++ [v, v] := by
    rw [Route.straight_succ, Route.straight_succ, List.append_assoc, List.singleton_append]
  have last_but_one : k + 2 - 1 = k + 1 := rfl
  rw [landing?, route, grasshopper_follow, Route.forall_mem_stops_straight, Route.leads_straightRoute,
    ← Square.along_succ, ← Square.along_succ, Piece.ray_succ_iff, forall_to_succ, last_but_one]
  constructor
  · rintro ⟨empty, ⟨inside, held⟩, arrives⟩
    have free j first within := Board.isEmpty_iff.1 (empty j first within)
    exact ⟨⟨⟨fun j first within => (free j first within).1, inside⟩, arrives⟩,
      fun j first within => (free j first (by omega)).2, held⟩
  · rintro ⟨⟨⟨others, inside⟩, arrives⟩, empty, held⟩
    exact ⟨fun j first within =>
      Board.isEmpty_iff.2 ⟨others j first within, empty j first (by omega)⟩, ⟨inside, held⟩, arrives⟩

theorem leapfrog_ray {hops : Nat} (some_way : 1 ≤ hops) :
    leapfrog.landing? .either b p (straightRoute v (2 * hops)) = some t ↔ p.Ray b v (2 * hops) t ∧
      (∀ j < hops, b.pieceOn (p.square.along v (2 * j + 1)) ≠ none) ∧
      ∀ j, 1 ≤ j → j < hops → b.pieceOn (p.square.along v (2 * j)) = none := by
  obtain ⟨hops, rfl⟩ := Nat.exists_eq_add_of_le' some_way
  have length : 2 * (hops + 1) = 2 * hops + 1 + 1 := rfl
  have followed : leapfrog.landing? .either b p (straightRoute v (2 * (hops + 1))) = some t ↔ _ :=
    leapfrog_follow (n := 0) rfl hops
  rw [followed, length, Piece.ray_succ_iff]
  constructor
  · rintro ⟨held, empty, arrives⟩
    refine ⟨⟨?_, arrives⟩, fun j within => (held j within).2, ?_⟩
    · intro j first within
      obtain ⟨i, rfl | rfl⟩ := Nat.even_or_odd' j
      · obtain ⟨i, rfl⟩ := Nat.exists_eq_add_of_le' (show 1 ≤ i by omega)
        exact (Board.isEmpty_iff.1 (empty i (by omega))).1
      · exact (held i (by omega)).1
    · intro j first within
      obtain ⟨j, rfl⟩ := Nat.exists_eq_add_of_le' first
      exact (Board.isEmpty_iff.1 (empty j (by omega))).2
  · rintro ⟨⟨inside, arrives⟩, held, empty⟩
    refine ⟨fun j within => ⟨inside _ (by omega) (by omega), held j within⟩, ?_, arrives⟩
    intro j within
    exact Board.isEmpty_iff.2 ⟨inside _ (by omega) (by omega), empty (j + 1) (by omega) (by omega)⟩

end Rays

end Gait

theorem Mover.leapfrog_rays {d : Dimensions} {steps : List Step} {limit : Nat} {route : Route} :
    route ∈ (Motion.leapfrog steps limit).routes d ↔ ∃ v ∈ reflected steps,
      ∃ k, ((∃ hops, (1 ≤ hops ∧ hops ≤ limit) ∧ 2 * hops = k) ∧ k ≤ d.reach) ∧ straightRoute v k = route := by
  simp only [Motion.routes_leapfrog, List.mem_flatMap, List.mem_map, List.mem_range'_1]
  constructor
  · rintro ⟨hops, ⟨some_way, short⟩, v, listed, rfl⟩
    exact ⟨v, listed, 2 * hops, ⟨⟨hops, by omega, rfl⟩, by omega⟩, rfl⟩
  · rintro ⟨v, listed, _, ⟨⟨hops, within, rfl⟩, short⟩, rfl⟩
    exact ⟨hops, by omega, v, listed, rfl⟩

/-- The squares where the three kinds of hoppers land, by what stands before them. -/
theorem Mover.hoppers_land {b : Board} {p : Piece} (stands : b.pieceOn p.square = some p)
    (steps : List Step) (limit : Nat) :
    (∀ t, t ∈ (make b.dims (.catapult steps)).destinations .either b p ↔
      ∃ v, p.side.Heads steps v ∧ ∃ k, 2 ≤ k ∧ p.Ray b v k t ∧
        b.pieceOn (p.square.along v 1) ≠ none ∧
        ∀ j, 2 ≤ j → j < k → b.pieceOn (p.square.along v j) = none) ∧
    (∀ t, t ∈ (make b.dims (.grasshopper steps)).destinations .either b p ↔
      ∃ v, p.side.Heads steps v ∧ ∃ k, 2 ≤ k ∧ p.Ray b v k t ∧
        (∀ j, 1 ≤ j → j + 1 < k → b.pieceOn (p.square.along v j) = none) ∧
        b.pieceOn (p.square.along v (k - 1)) ≠ none) ∧
    ∀ t, t ∈ (make b.dims (.leapfrog steps limit)).destinations .either b p ↔
      ∃ v, p.side.Heads steps v ∧ ∃ hops, (1 ≤ hops ∧ hops ≤ limit) ∧ p.Ray b v (2 * hops) t ∧
        (∀ j < hops, b.pieceOn (p.square.along v (2 * j + 1)) ≠ none) ∧
        ∀ j, 1 ≤ j → j < hops → b.pieceOn (p.square.along v (2 * j)) = none := by
  refine ⟨?_, ?_, ?_⟩
  · intro t
    rw [mem_destinations_rays (fun _ => mem_straightRoutes) stands]
    refine exists_congr fun v => and_congr_right fun _ => exists_congr fun k => and_congr_right ?_
    exact Gait.catapult_ray
  · intro t
    rw [mem_destinations_rays (fun _ => mem_straightRoutes) stands]
    refine exists_congr fun v => and_congr_right fun _ => exists_congr fun k => and_congr_right ?_
    exact Gait.grasshopper_ray
  · intro t
    rw [mem_destinations_rays (fun _ => leapfrog_rays) stands]
    refine exists_congr fun v => and_congr_right fun _ => ?_
    constructor
    · rintro ⟨_, ⟨hops, within, rfl⟩, leads⟩
      exact ⟨hops, within, (Gait.leapfrog_ray within.1).1 leads⟩
    · rintro ⟨hops, within, ray⟩
      exact ⟨_, ⟨hops, within, rfl⟩, (Gait.leapfrog_ray within.1).2 ray⟩

open Descent in
theorem Descent.hops_down : board.pieceOn piece.square = some piece ∧
    (Mover.make board.dims (.catapult [⟨1, 0⟩])).destinations .either board piece = [⟨3, 1⟩, ⟨2, 1⟩] ∧
    (Mover.make board.dims (.grasshopper [⟨1, 0⟩])).destinations .either board piece = [⟨3, 1⟩] ∧
    ⟨1, 1⟩ ∈ (Mover.make board.dims (.leapfrog [⟨1, 0⟩] 2)).destinations .either board piece ∧
    ∃ v, piece.side.Heads [⟨1, 0⟩] v ∧ ∃ hops, (1 ≤ hops ∧ hops ≤ 2) ∧
      piece.Ray board v (2 * hops) ⟨1, 1⟩ ∧
      (∀ j < hops, board.pieceOn (piece.square.along v (2 * j + 1)) ≠ none) ∧
      ∀ j, 1 ≤ j → j < hops → board.pieceOn (piece.square.along v (2 * j)) = none := by
  have reached : ⟨1, 1⟩ ∈
      (Mover.make board.dims (.leapfrog [⟨1, 0⟩] 2)).destinations .either board piece := by
    decide +kernel
  obtain ⟨_, _, leapfrog⟩ := Mover.hoppers_land stands [⟨1, 0⟩] 2
  exact ⟨stands, by decide +kernel, by decide +kernel, reached, (leapfrog _).1 reached⟩

end VariantChess
