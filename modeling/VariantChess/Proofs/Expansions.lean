import VariantChess.Motion.Expansion
import VariantChess.Proofs.ItemByItem
import VariantChess.Proofs.Lattice
import VariantChess.Proofs.StoredRoutes

/-!
Routes that are worked out. What comes out is what `Motion.routes` says. Something does come out wherever
coordinates can be turned round, hops can be counted, and a leap that is repeated as often as it fits can be
written down once more, which is when it is first seen not to fit.
-/

namespace VariantChess

variable {d : Dimensions} {v : Step} {m : Motion}

namespace Square

theorem reversible_iff {x : Int} : reversible x = true ↔ 2 * x.natAbs < UInt32.size := by
  rw [reversible, decide_eq_true_eq, UInt32.size]
  omega

theorem Mild.flipCol?_eq {s : Square} (mild : s.Mild) : s.flipCol? = some s.flipCol :=
  if_pos (reversible_iff.2 mild.col)

theorem Mild.flipRow?_eq {s : Square} (mild : s.Mild) : s.flipRow? = some s.flipRow :=
  if_pos (reversible_iff.2 mild.row)

theorem eq_of_flipRow? {s t : Square} (h : s.flipRow? = some t) : t = s.flipRow :=
  (Option.some.inj (Option.ite_none_right_eq_some.1 h).2).symm

theorem eq_of_flipCol? {s t : Square} (h : s.flipCol? = some t) : t = s.flipCol :=
  (Option.some.inj (Option.ite_none_right_eq_some.1 h).2).symm

theorem eq_of_scale? {s t : Square} {k : Nat} (h : s.scale? k = some t) : t = s.scale k :=
  (Option.some.inj (Option.ite_none_right_eq_some.1 h).2).symm

theorem scale?_isSome_iff {s : Square} {k : Nat} : (s.scale? k).isSome = true ↔
    2 * (s.row.natAbs * k) < UInt32.size ∧ 2 * (s.col.natAbs * k) < UInt32.size := by
  simp only [scale?, scale, Bool.and_eq_true, reversible_iff, Option.isSome_ite, Int.natAbs_mul,
    Int.natAbs_natCast]

/-- What can be written down at some length can be at every lesser one. -/
theorem scale?_of_le {s : Square} {j k : Nat} (fewer : j ≤ k) (written : (s.scale? k).isSome = true) :
    s.scale? j = some (s.scale j) := by
  have shorter : (s.scale? j).isSome = true := by
    rw [scale?_isSome_iff] at written ⊢
    have row := Nat.mul_le_mul_left s.row.natAbs fewer
    have col := Nat.mul_le_mul_left s.col.natAbs fewer
    omega
  obtain ⟨far, made⟩ := Option.isSome_iff_exists.1 shorter
  rw [made, eq_of_scale? made]

/-- A step that goes somewhere gets as far as it is often. -/
theorem lt_of_scale? {s : Square} {k : Nat} (moves : s ≠ ⟨0, 0⟩) (written : (s.scale? k).isSome = true) :
    k < UInt32.size / 2 := by
  obtain ⟨rows, cols⟩ := scale?_isSome_iff.1 written
  unfold UInt32.size at rows cols ⊢
  by_cases row : s.row = 0
  · have col : s.col ≠ 0 := fun col => moves (Square.ext row col)
    have far := Nat.le_mul_of_pos_left k (Int.natAbs_pos.2 col)
    omega
  · have far := Nat.le_mul_of_pos_left k (Int.natAbs_pos.2 row)
    omega

end Square

/-! Reflected steps. -/

section Reflected

variable {steps : List Step}

theorem reflected?_eq (mild : ∀ s ∈ steps, s.Mild) : reflected? steps = some (reflected steps) := by
  have pairs : steps.mapM (fun s => do return [s, ← s.flipCol?]) =
      some (steps.map fun s => [s, s.flipCol]) :=
    mapM_eq_some_map fun s listed => by simp [(mild s listed).flipCol?_eq]
  rw [reflected?, pairs, reflected, List.flatMap_def]
  rfl

theorem eq_of_reflected? {all : List Step} (h : reflected? steps = some all) : all = reflected steps := by
  simp only [reflected?, Option.bind_eq_bind, Option.bind_eq_some_iff, Option.pure_def,
    Option.some.injEq] at h
  obtain ⟨pairs, worked, rfl⟩ := h
  have each : pairs = steps.map fun s => [s, s.flipCol] := by
    refine eq_map_of_mapM ?_ worked
    intro s _ pair made
    simp only [Option.bind_eq_some_iff, Option.some.injEq] at made
    obtain ⟨t, turned, rfl⟩ := made
    rw [Square.eq_of_flipCol? turned]
  rw [each, reflected, List.flatMap_def]

end Reflected

theorem eq_of_straightRoutes? {steps : List Step} {shortest longest : Nat} {routes : List Route}
    (h : straightRoutes? steps shortest longest = some routes) :
    routes = straightRoutes steps shortest longest :=
  (Option.some.inj (Option.ite_none_right_eq_some.1 h).2).symm

/-! Repeated leaps. -/

section Repeats

variable (moves : v ≠ ⟨0, 0⟩) (fits : d.admits v = true)
include moves fits

/-- The induction follows the loop, which never counts past the first length that does not fit. -/
theorem eq_repeats_of_repeats? {times n : Nat} (h : repeats? d v times = some n)
    (started : times ≤ repeats d v + 1) :
    n = repeats d v ∧ (v.scale? (repeats d v + 1)).isSome = true := by
  induction times using repeats?.induct with
  | case1 times small ih =>
      rw [repeats?, if_pos small, Option.bind_eq_bind, Option.bind_eq_some_iff] at h
      obtain ⟨far, reached, rest⟩ := h
      have last := Square.eq_of_scale? reached
      split at rest
      · rename_i admitted
        have again := (Dimensions.le_repeats_iff moves fits).2 (last ▸ admitted)
        exact ih rest (Nat.succ_le_succ again)
      · rename_i outside
        rw [last, ← Dimensions.le_repeats_iff moves fits] at outside
        obtain rfl : times = repeats d v + 1 := by omega
        rw [reached]
        exact ⟨(Option.some.inj rest).symm, rfl⟩
  | case2 times large =>
      rw [repeats?, if_neg large] at h
      cases h

/-- One round of the loop, up to the first length that does not fit. -/
theorem repeats?_step (written : (v.scale? (repeats d v + 1)).isSome = true) {times : Nat}
    (within : times ≤ repeats d v + 1) : repeats? d v times =
      if times ≤ repeats d v then repeats? d v (times + 1) else some (times - 1) := by
  have small : times < UInt32.size / 2 := lt_of_le_of_lt within (Square.lt_of_scale? moves written)
  rw [repeats?, if_pos small, Square.scale?_of_le within written, Option.bind_eq_bind, Option.bind_some]
  simp only [Dimensions.le_repeats_iff moves fits, Option.pure_def]

/-- Here the induction is on how many lengths are left to try. -/
theorem repeats?_of_rest (written : (v.scale? (repeats d v + 1)).isSome = true) {times left : Nat}
    (rest : times + left = repeats d v + 1) : repeats? d v times = some (repeats d v) := by
  rw [repeats?_step moves fits written (by omega)]
  induction left generalizing times with
  | zero =>
      rw [if_neg (by omega)]
      exact congrArg some (by omega)
  | succ left ih =>
      rw [if_pos (by omega), repeats?_step moves fits written (by omega)]
      exact ih (by omega)

/-- The loop comes to its end if the first length that does not fit can still be written down. -/
theorem repeats?_eq_some_iff {n : Nat} : repeats? d v 1 = some n ↔
    n = repeats d v ∧ (v.scale? (repeats d v + 1)).isSome = true := by
  constructor
  · intro h
    exact eq_repeats_of_repeats? moves fits h (by omega)
  · rintro ⟨rfl, written⟩
    exact repeats?_of_rest moves fits written (Nat.add_comm 1 _)

/-- Where a leap on top of the board still has numbers, it can be repeated. -/
theorem scale?_beyond (rows : 2 * (d.rows + v.row.natAbs) ≤ UInt32.size)
    (cols : 2 * (d.cols + v.col.natAbs) ≤ UInt32.size) :
    (v.scale? (repeats d v + 1)).isSome = true := by
  obtain ⟨row, col⟩ := Dimensions.admits_scale_iff.1 ((Dimensions.le_repeats_iff moves fits).1 le_rfl)
  rw [Square.scale?_isSome_iff, Nat.mul_succ, Nat.mul_succ]
  omega

end Repeats

/-! Leaps. -/

namespace LeapSpan

variable {span : LeapSpan}

theorem eq_of_leaps? {leaps : List Step} (h : span.leaps? d = some leaps) : leaps = span.leaps d :=
  (Option.some.inj (Option.ite_none_right_eq_some.1 h).2).symm

theorem leaps?_eq (reversible : span.isReversible = true) : span.leaps? d = some (span.leaps d) :=
  if_pos reversible

theorem reversible_of_leaps? {leaps : List Step} (h : span.leaps? d = some leaps) :
    span.isReversible = true :=
  (Option.ite_none_right_eq_some.1 h).1

/-- A span that holds a leap is not empty, and the leap is no longer than its bounds. -/
theorem mild_of_reversible (reversible : span.isReversible = true) (holds : span.Holds v) : v.Mild := by
  obtain ⟨_, m, n, hm, hn, made⟩ := holds
  simp only [isReversible, Bool.or_eq_true, decide_eq_true_eq, List.all_cons, List.all_nil,
    Bool.and_eq_true, Square.reversible_iff] at reversible
  exact ⟨by omega, by omega⟩

end LeapSpan

theorem eq_of_repeatedRoutes? (moves : v ≠ ⟨0, 0⟩) (fits : d.admits v = true) {routes : List Route}
    (h : repeatedRoutes? d v = some routes) : routes = straightRoutes [v] 1 (repeats d v) := by
  obtain ⟨n, often, rfl⟩ := Option.map_eq_some_iff.1 h
  rw [((repeats?_eq_some_iff moves fits).1 often).1]

/-! Motions. -/

namespace Motion

/-- Its steps and the bounds of its leaps can be turned round, and its hops counted. -/
def Writable : Motion → Prop
  | walker steps _ _ | rider steps | catapult steps | grasshopper steps => ∀ s ∈ steps, s.Mild
  | leaper span | leaprider span => span.isReversible = true
  | leapfrog steps limit => (∀ s ∈ steps, s.Mild) ∧ 2 * limit < UInt64.size

/-- Every leap that it repeats can be written down once more than it fits. -/
def Repeatable (d : Dimensions) : Motion → Prop
  | leaprider span => ∀ v ∈ span.leaps d, (v.scale? (repeats d v + 1)).isSome = true
  | walker .. | rider _ | leaper _ | catapult _ | grasshopper _ | leapfrog .. => True

theorem of_expand?_leaper {span : LeapSpan} {routes : List Route}
    (h : (leaper span).expand? d = some routes) :
    span.isReversible = true ∧ (leaper span).routes d = routes := by
  unfold expand? at h
  replace h := (Option.ite_none_left_eq_some.1 h).2
  simp only [Option.bind_eq_bind, Option.bind_eq_some_iff] at h
  obtain ⟨leaps, spanned, made⟩ := h
  obtain rfl := LeapSpan.eq_of_leaps? spanned
  exact ⟨LeapSpan.reversible_of_leaps? spanned, Option.some.inj made⟩

theorem of_expand?_leaprider {span : LeapSpan} {routes : List Route}
    (h : (leaprider span).expand? d = some routes) : span.isReversible = true ∧
      ∃ tables, (span.leaps d).mapM (repeatedRoutes? d) = some tables ∧ tables.flatten = routes := by
  unfold expand? at h
  replace h := (Option.ite_none_left_eq_some.1 h).2
  simp only [Option.bind_eq_bind, Option.bind_eq_some_iff] at h
  obtain ⟨leaps, spanned, tables, repeated, made⟩ := h
  obtain rfl := LeapSpan.eq_of_leaps? spanned
  exact ⟨LeapSpan.reversible_of_leaps? spanned, tables, repeated, Option.some.inj made⟩

theorem eq_of_expand? {routes : List Route} (h : m.expand? d = some routes) : routes = m.routes d := by
  have worked := h
  unfold expand? at worked
  replace worked := (Option.ite_none_left_eq_some.1 worked).2
  cases m with
  | walker steps min max =>
      obtain ⟨all, both, made⟩ := Option.bind_eq_some_iff.1 worked
      rw [← Option.some.inj made, eq_of_reflected? both, Motion.routes]
  | rider steps | catapult steps | grasshopper steps =>
      obtain ⟨all, both, made⟩ := Option.bind_eq_some_iff.1 worked
      rw [eq_of_straightRoutes? made, eq_of_reflected? both, Motion.routes]
  | leaper span => exact (of_expand?_leaper h).2.symm
  | leaprider span =>
      obtain ⟨_, tables, repeated, rfl⟩ := of_expand?_leaprider h
      have each : tables = (span.leaps d).map fun leap => straightRoutes [leap] 1 (repeats d leap) := by
        refine eq_map_of_mapM ?_ repeated
        intro leap listed table often
        obtain ⟨holds, fits⟩ := LeapSpan.mem_leaps.1 listed
        exact eq_of_repeatedRoutes? holds.1 fits often
      rw [each, Motion.routes, List.flatMap_def]
  | leapfrog steps limit =>
      obtain ⟨_, _, made⟩ := Option.bind_eq_some_iff.1 worked
      exact (Option.some.inj (Option.ite_none_right_eq_some.1 made).2).symm

theorem reversible_of_expand? {span : LeapSpan} (leaps : m = leaper span ∨ m = leaprider span)
    {routes : List Route} (h : m.expand? d = some routes) : span.isReversible = true := by
  rcases leaps with rfl | rfl
  · exact (of_expand?_leaper h).1
  · exact (of_expand?_leaprider h).1

/-- A leaprider has its routes only if each of its leaps can be repeated to the end. -/
theorem repeatable_of_expand? {span : LeapSpan} {routes : List Route}
    (h : (leaprider span).expand? d = some routes) : (leaprider span).Repeatable d := by
  intro leap listed
  obtain ⟨holds, fits⟩ := LeapSpan.mem_leaps.1 listed
  obtain ⟨_, tables, repeated, _⟩ := of_expand?_leaprider h
  obtain ⟨table, often⟩ := Option.isSome_iff_exists.1 (isSome_of_mapM repeated leap listed)
  obtain ⟨n, ended, _⟩ := Option.map_eq_some_iff.1 often
  exact ((repeats?_eq_some_iff holds.1 fits).1 ended).2

section Leaps

variable {span : LeapSpan} (some_way : 0 < max d.rows d.cols) (reversible : span.isReversible = true)
include some_way reversible

theorem expand?_leaper : (leaper span).expand? d = some ((leaper span).routes d) := by
  unfold expand?
  rw [if_neg (Nat.ne_of_gt some_way)]
  simp [LeapSpan.leaps?_eq reversible, Motion.routes]

theorem expand?_leaprider (repeatable : (leaprider span).Repeatable d) :
    (leaprider span).expand? d = some ((leaprider span).routes d) := by
  have tables : (span.leaps d).mapM (repeatedRoutes? d) =
      some ((span.leaps d).map fun leap => straightRoutes [leap] 1 (repeats d leap)) := by
    refine mapM_eq_some_map ?_
    intro leap listed
    obtain ⟨holds, fits⟩ := LeapSpan.mem_leaps.1 listed
    rw [repeatedRoutes?, (repeats?_eq_some_iff holds.1 fits).2 ⟨rfl, repeatable leap listed⟩,
      Option.map_some]
  unfold expand?
  rw [if_neg (Nat.ne_of_gt some_way)]
  simp [LeapSpan.leaps?_eq reversible, tables, Motion.routes, List.flatMap_def]

end Leaps

section Addressable

variable (addressable : d.Addressable) (some_way : 0 < max d.rows d.cols)
include addressable

theorem straightRoutes?_eq (steps : List Step) (shortest : Nat) :
    straightRoutes? steps shortest d.reach = some (straightRoutes steps shortest d.reach) := by
  obtain ⟨rows, cols⟩ := addressable
  have short : d.reach + 1 - shortest ≤ UInt32.size := by
    unfold Dimensions.reach
    omega
  have room : Capacity.holds (d.reach + 1 - shortest) 24 = true := Capacity.holds_of_le short (by decide)
  rw [straightRoutes?, room, Bool.or_true, if_pos rfl]

include some_way

theorem expand?_eq (writable : m.Writable) (repeatable : m.Repeatable d) :
    m.expand? d = some (m.routes d) := by
  cases m with
  | leaper span => exact expand?_leaper some_way writable
  | leaprider span => exact expand?_leaprider some_way writable repeatable
  | walker steps min max =>
      unfold expand?
      simp [Nat.ne_of_gt some_way, reflected?_eq writable, Motion.routes]
  | rider steps | catapult steps | grasshopper steps =>
      unfold expand?
      simp [Nat.ne_of_gt some_way, reflected?_eq writable, straightRoutes?_eq addressable, Motion.routes]
  | leapfrog steps limit =>
      unfold expand?
      simp [Nat.ne_of_gt some_way, reflected?_eq writable.1, writable.2]

end Addressable

end Motion

/-! Boards that are small enough. -/

/-- Two rows or columns add up to a coordinate. -/
def Dimensions.Compact (d : Dimensions) : Prop := 4 * d.rows ≤ UInt32.size ∧ 4 * d.cols ≤ UInt32.size

instance (d : Dimensions) : Decidable d.Compact := inferInstanceAs (Decidable (_ ∧ _))

namespace Dimensions

theorem Compact.addressable (compact : d.Compact) : d.Addressable := by
  obtain ⟨rows, cols⟩ := compact
  unfold UInt32.size at rows cols
  unfold Addressable UInt32.size
  omega

theorem Playable.some_way (playable : d.Playable) : 0 < max d.rows d.cols := by
  obtain ⟨rows, _⟩ := playable
  omega

theorem Compact.repeatable (compact : d.Compact) (m : Motion) : m.Repeatable d := by
  cases m with
  | leaprider span =>
      intro leap listed
      obtain ⟨holds, fits⟩ := LeapSpan.mem_leaps.1 listed
      obtain ⟨rows, cols⟩ := compact
      obtain ⟨row, col⟩ := admits_iff.1 fits
      exact scale?_beyond holds.1 fits (by omega) (by omega)
  | walker | rider | leaper | catapult | grasshopper | leapfrog => trivial

end Dimensions

/-! Either side's routes. -/

theorem Route.eq_of_flipRow? {route back : Route} (h : route.flipRow? = some back) : back = route.flipRow :=
  eq_map_of_mapM (fun _ _ _ => Square.eq_of_flipRow?) h

theorem Route.flipRow?_eq {route : Route} (mild : ∀ s ∈ route, s.Mild) :
    route.flipRow? = some route.flipRow :=
  mapM_eq_some_map fun s inside => (mild s inside).flipRow?_eq

theorem Motion.Writable.mild (writable : m.Writable) : ∀ s ∈ m.steps, s.Mild := by
  cases m with
  | walker steps min max | rider steps | catapult steps | grasshopper steps => exact writable
  | leaper span | leaprider span => exact List.forall_mem_nil _
  | leapfrog steps limit => exact writable.1

namespace Mover

theorem eq_of_make? {mover : Mover} (h : make? d m = some mover) : mover = make d m := by
  simp only [make?, Option.bind_eq_bind, Option.bind_eq_some_iff] at h
  obtain ⟨white, forth, black, back, made⟩ := h
  obtain rfl := Motion.eq_of_expand? forth
  rw [← Option.some.inj made, eq_map_of_mapM (fun _ _ _ => Route.eq_of_flipRow?) back, make]

theorem make?_eq_of_mild (worked : m.expand? d = some (m.routes d)) (mild : Mild (m.routes d)) :
    make? d m = some (make d m) := by
  have back : (m.routes d).mapM Route.flipRow? = some ((m.routes d).map Route.flipRow) :=
    mapM_eq_some_map fun route listed => Route.flipRow?_eq (mild route listed)
  simp [make?, worked, back, make]

/-- White's leaps can be turned round if they have been worked out. -/
theorem make?_of_leaps {span : LeapSpan} (leaps : m = .leaper span ∨ m = .leaprider span)
    (h : m.expand? d = some (m.routes d)) : make? d m = some (make d m) := by
  have reversible : span.isReversible = true := Motion.reversible_of_expand? leaps h
  have mild : ∀ v ∈ span.leaps d, v.Mild :=
    fun v listed => LeapSpan.mild_of_reversible reversible (LeapSpan.mem_leaps.1 listed).1
  refine make?_eq_of_mild h (Motion.forall_mem_routes (fun s (calm : s.Mild) => calm.flipCol) ?_ ?_)
  · rcases leaps with rfl | rfl <;> exact List.forall_mem_nil _
  · rcases leaps with rfl | rfl <;> exact mild

theorem make?_eq (addressable : d.Addressable) (some_way : 0 < max d.rows d.cols) (writable : m.Writable)
    (repeatable : m.Repeatable d) : make? d m = some (make d m) :=
  make?_eq_of_mild (Motion.expand?_eq addressable some_way writable repeatable)
    (Motion.mild_routes addressable writable.mild)

end Mover

namespace Pattern

variable {α β : Type} {f : α → Option β} {g : α → β} {x : Pattern α}

theorem eq_map_of_mapM? {y : Pattern β} (right : ∀ a ∈ x.parts, ∀ b, f a = some b → b = g a)
    (h : x.mapM? f = some y) : y = x.map g := by
  cases x with
  | simple | exchange | retreat =>
      simp only [mapM?, Option.bind_eq_bind, Option.bind_eq_some_iff] at h
      obtain ⟨b, made, same⟩ := h
      rw [← Option.some.inj same, right _ (List.mem_singleton_self _) b made, map]
  | moveCapture | combination =>
      simp only [mapM?, Option.bind_eq_bind, Option.bind_eq_some_iff] at h
      obtain ⟨b, made, c, made', same⟩ := h
      rw [← Option.some.inj same, right _ List.mem_cons_self b made,
        right _ (List.mem_cons_of_mem _ (List.mem_singleton_self _)) c made', map]

theorem mapM?_eq_some_map (each : ∀ a ∈ x.parts, f a = some (g a)) : x.mapM? f = some (x.map g) := by
  cases x with
  | simple | exchange | retreat => simp [mapM?, map, each _ (List.mem_singleton_self _)]
  | moveCapture | combination =>
      simp [mapM?, map, each _ List.mem_cons_self,
        each _ (List.mem_cons_of_mem _ (List.mem_singleton_self _))]

end Pattern

theorem Plan.eq_of_build? {plan : Plan} {rule : Rule} (h : plan.build? d = some rule) :
    rule = plan.build d :=
  Pattern.eq_map_of_mapM? (fun _ _ _ => Mover.eq_of_make?) h

end VariantChess
