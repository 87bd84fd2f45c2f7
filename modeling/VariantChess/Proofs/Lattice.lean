import VariantChess.Proofs.Slides

/-!
Leapers and leapriders. A span describes a lattice of steps, the same from every end of the board. Leaps that
do not fit on the board could not be made from any of its squares, and repeating one that goes somewhere
grows out of the board at some length, where its routes end. Between two squares of the board a straight way
does not leave it, so nothing but the last square counts.
-/

namespace VariantChess

namespace LeapSpan

theorem nodup_leaps (r : LeapSpan) (d : Dimensions) : (r.leaps d).Nodup := nodup_eraseDups _

theorem Holds.turn {r : LeapSpan} {v : Step} (holds : r.Holds v) (side : Side) : r.Holds (side.turn v) := by
  obtain ⟨moves, m, n, hm, hn, made⟩ := holds
  cases side with
  | white => exact ⟨moves, m, n, hm, hn, made⟩
  | black =>
      refine ⟨?_, m, n, hm, hn, ?_⟩
      · intro still
        rw [Side.turn, Square.flipRow, Square.ext_iff] at still
        exact moves (Square.ext (Int.neg_eq_zero.1 still.1) still.2)
      · dsimp only [Side.turn, Square.flipRow]
        omega

end LeapSpan

/-! How often a leap fits. -/

theorem Square.scale_one (s : Square) : s.scale (1 : Nat) = s := by simp [scale]

theorem le_repeatsWithin {length distance k : Nat} (far : 0 < distance) (some_way : 0 < length) :
    k ≤ repeatsWithin length distance ↔ distance * k < length := by
  rw [repeatsWithin, Nat.le_div_iff_mul_le far, Nat.mul_comm]
  omega

namespace Dimensions

variable {d : Dimensions} {v : Step} {j k : Nat}

theorem admits_scale_iff : d.admits (v.scale k) = true ↔
    v.row.natAbs * k < d.rows ∧ v.col.natAbs * k < d.cols := by
  rw [admits_iff, Square.scale, Int.natAbs_mul, Int.natAbs_mul, Int.natAbs_natCast]

theorem admits_scale_of_le (fewer : j ≤ k) (admitted : d.admits (v.scale k) = true) :
    d.admits (v.scale j) = true := by
  obtain ⟨rows, cols⟩ := admits_scale_iff.1 admitted
  exact admits_scale_iff.2 ⟨(Nat.mul_le_mul_left _ fewer).trans_lt rows,
    (Nat.mul_le_mul_left _ fewer).trans_lt cols⟩

theorem admits_scale_turn (side : Side) :
    d.admits ((side.turn v).scale k) = d.admits (v.scale k) := by
  rw [Bool.eq_iff_iff, admits_scale_iff, admits_scale_iff]
  cases side with
  | white => rfl
  | black => simp [Side.turn, Square.flipRow]

/-- A leap that fits can be repeated until it does not fit any more, and no further. -/
theorem le_repeats_iff (moves : v ≠ ⟨0, 0⟩) (fits : d.admits v = true) :
    k ≤ repeats d v ↔ d.admits (v.scale k) = true := by
  obtain ⟨rows, cols⟩ := admits_iff.1 fits
  have some_rows : 0 < d.rows := Nat.zero_lt_of_lt rows
  have some_cols : 0 < d.cols := Nat.zero_lt_of_lt cols
  rw [admits_scale_iff, repeats]
  split
  · rename_i row
    have col : v.col ≠ 0 := fun col => moves (Square.ext row col)
    simp [le_repeatsWithin (Int.natAbs_pos.2 col) some_cols, row, some_rows]
  · rename_i row
    split
    · rename_i col
      simp [le_repeatsWithin (Int.natAbs_pos.2 row) some_rows, col, some_cols]
    · rename_i col
      rw [Nat.le_min, le_repeatsWithin (Int.natAbs_pos.2 row) some_rows,
        le_repeatsWithin (Int.natAbs_pos.2 col) some_cols]

/-- A straight way between two squares of a board stays on it. -/
theorem contains_between {s : Square} (start : d.contains s = true)
    (there : d.contains (s.along v k) = true) (within : j ≤ k) : d.contains (s.along v j) = true := by
  have between (n : Int) : (0 ≤ j * n ∧ j * n ≤ k * n) ∨ (k * n ≤ j * n ∧ j * n ≤ 0) := by
    have fewer : (j : Int) ≤ k := Int.ofNat_le.2 within
    rcases Int.le_total 0 n with forth | back
    · exact .inl ⟨Int.mul_nonneg (Int.natCast_nonneg j) forth, Int.mul_le_mul_of_nonneg_right fewer forth⟩
    · exact .inr ⟨Int.mul_le_mul_of_nonpos_right fewer back,
        Int.mul_nonpos_of_nonneg_of_nonpos (Int.natCast_nonneg j) back⟩
  have row := between v.row
  have col := between v.col
  rw [contains_iff] at start there ⊢
  dsimp only [Square.along] at there ⊢
  omega

end Dimensions

/-! Landing. -/

/-- A leap follows any ray. -/
theorem Gait.leap_ray {b : Board} {p : Piece} {v : Step} {k : Nat} {t : Square} (some_way : 1 ≤ k) :
    leap.landing? .either b p (straightRoute v k) = some t ↔ p.Ray b v k t := by
  obtain ⟨k, rfl⟩ := Nat.exists_eq_add_of_le' some_way
  rw [landing?, Route.straight_succ, follow_steady fun _ => rfl, Route.forall_mem_stops_straight,
    Route.leads_straightRoute, ← Square.along_succ, Piece.ray_succ_iff]
  simp only [leap, leapVerdict_mayEnd, leapVerdict_mayGoOn, and_true, Intent.accepts_openTo]

theorem Piece.ray_iff_openTo {b : Board} {p : Piece} {v : Step} {k : Nat} {t : Square}
    (inside : b.contains p.square = true) (some_way : 1 ≤ k) :
    p.Ray b v k t ↔ p.square.along v k = t ∧ b.OpenTo p.side t := by
  constructor
  · rintro ⟨rfl, on, friendless⟩
    exact ⟨rfl, on k some_way le_rfl, friendless⟩
  · rintro ⟨rfl, on, friendless⟩
    exact ⟨rfl, fun j _ within => Dimensions.contains_between inside on within, friendless⟩

theorem Motion.mem_routes_leaper {d : Dimensions} {span : LeapSpan} {route : Route} :
    route ∈ (leaper span).routes d ↔ ∃ v, span.Holds v ∧
      ∃ k : Nat, k = 1 ∧ d.admits (v.scale k) = true ∧ straightRoute v k = route := by
  have single (v : Step) : straightRoute v 1 = [v] := rfl
  simp only [routes, List.mem_map, LeapSpan.mem_leaps, and_assoc, exists_eq_left, Square.scale_one, single]

theorem Motion.mem_routes_leaprider {d : Dimensions} {span : LeapSpan} {route : Route} :
    route ∈ (leaprider span).routes d ↔ ∃ v, span.Holds v ∧
      ∃ k : Nat, 1 ≤ k ∧ d.admits (v.scale k) = true ∧ straightRoute v k = route := by
  simp only [routes, List.mem_flatMap, mem_straightRoutes, List.mem_singleton, exists_eq_left]
  constructor
  · rintro ⟨v, listed, k, ⟨some_way, often⟩, rfl⟩
    obtain ⟨holds, fits⟩ := LeapSpan.mem_leaps.1 listed
    exact ⟨v, holds, k, some_way, (Dimensions.le_repeats_iff holds.1 fits).1 often, rfl⟩
  · rintro ⟨v, holds, k, some_way, admitted, rfl⟩
    have fits := Dimensions.admits_scale_of_le some_way admitted
    rw [Square.scale_one] at fits
    exact ⟨v, LeapSpan.mem_leaps.2 ⟨holds, fits⟩, k,
      ⟨some_way, (Dimensions.le_repeats_iff holds.1 fits).2 admitted⟩, rfl⟩

/-- Leapers and leapriders differ only in how often they may leap. -/
theorem Mover.mem_destinations_leaps {b : Board} {m : Motion} {span : LeapSpan} {often : Nat → Prop}
    (gait : m.gait = .leap) (some_way : ∀ k, often k → 1 ≤ k)
    (leaps : ∀ route, route ∈ m.routes b.dims ↔ ∃ v, span.Holds v ∧
      ∃ k, often k ∧ b.dims.admits (v.scale k) = true ∧ straightRoute v k = route)
    {p : Piece} (inside : b.contains p.square = true) {t : Square} :
    t ∈ (make b.dims m).destinations .either b p ↔ ∃ v, span.Holds v ∧
      ∃ k, often k ∧ p.square.along v k = t ∧ b.OpenTo p.side t := by
  have lands {v : Step} {k : Nat} (long : often k) :=
    (Gait.leap_ray (v := v) (t := t) (some_way k long)).trans (Piece.ray_iff_openTo inside (some_way k long))
  simp only [destinations, List.mem_filterMap, mem_routes_make, leaps, motion_make, gait]
  constructor
  · rintro ⟨_, ⟨_, ⟨v, holds, k, long, _, rfl⟩, rfl⟩, leads⟩
    rw [map_straightRoute, lands long] at leads
    exact ⟨p.side.turn v, holds.turn p.side, k, long, leads⟩
  · rintro ⟨v, holds, k, long, arrives⟩
    have fits : b.dims.admits ((p.side.turn v).scale k) = true := by
      rw [Dimensions.admits_scale_turn]
      exact Dimensions.admits_between inside (arrives.1 ▸ arrives.2.1)
    refine ⟨_, ⟨_, ⟨p.side.turn v, holds.turn p.side, k, long, fits, rfl⟩, rfl⟩, ?_⟩
    rw [map_straightRoute, Side.turn_turn, lands long]
    exact arrives

theorem Mover.nodup_leaper (span : LeapSpan) (d : Dimensions) (i : Intent) (b : Board) (p : Piece) :
    ((make d (.leaper span)).destinations i b p).Nodup := by
  have single {route : Route} (listed : route ∈ (make d (.leaper span)).routes p.side) :
      ∃ v, route = [v] := by
    obtain ⟨_, among, rfl⟩ := mem_routes_make.1 listed
    obtain ⟨v, _, rfl⟩ := List.mem_map.1 among
    exact ⟨p.side.turn v, rfl⟩
  refine nodup_destinations (nodup_routes_make ?_ p.side) ?_ i b
  · exact (span.nodup_leaps d).map List.singleton_injective
  · intro route listed other among same
    obtain ⟨v, rfl⟩ := single listed
    obtain ⟨w, rfl⟩ := single among
    obtain ⟨rows, cols⟩ := Square.mk.inj same
    exact congrArg (fun u => [u]) (Square.ext (Int.add_left_cancel rows) (Int.add_left_cancel cols))

end VariantChess
