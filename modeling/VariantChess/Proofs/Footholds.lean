import VariantChess.Gait
import VariantChess.Proofs.Occupants

/-!
Where a walk may end. Every gait stops a piece only on a footing that its intent accepts: an empty
square if it may move, an enemy if it may capture, and never a friend. So the squares that a route
leads to are on the board and not held by a friendly piece, whatever the routes are.
The intent decides nothing else: how a walk goes on is the same for all of them.
-/

namespace VariantChess

def Intent.accepts (i : Intent) : Footing → Bool
  | .empty => i.mayMove
  | .friend => false
  | .enemy => i.mayCapture

namespace Gait

@[simp] theorem slideVerdict_mayEnd (i : Intent) (f : Footing) :
    (slideVerdict i f).mayEnd = i.accepts f := by
  cases i <;> cases f <;> rfl

@[simp] theorem leapVerdict_mayEnd (i : Intent) (f : Footing) :
    (leapVerdict i f).mayEnd = i.accepts f := by
  cases i <;> cases f <;> rfl

@[simp] theorem landVerdict_mayEnd (i : Intent) (f : Footing) :
    (landVerdict i f).mayEnd = i.accepts f := by
  cases i <;> cases f <;> rfl

@[simp] theorem slideVerdict_mayGoOn (i : Intent) (f : Footing) :
    (slideVerdict i f).mayGoOn = (f == .empty) := by
  cases i <;> cases f <;> rfl

@[simp] theorem leapVerdict_mayGoOn (i : Intent) (f : Footing) :
    (leapVerdict i f).mayGoOn = true := by
  cases i <;> cases f <;> rfl

@[simp] theorem landVerdict_mayGoOn (i : Intent) (f : Footing) :
    (landVerdict i f).mayGoOn = false := by
  cases i <;> cases f <;> rfl

/-- A gait for which the intent only decides where a walk may end. Of the squares where it may end at
all it keeps those that the intent accepts; how the walk goes on, and what is remembered of it, are the
same for every intent. -/
structure Heeds (g : Gait) : Prop where
  ends : ∀ i f memory,
    (g.judge i f memory).1.mayEnd = ((g.judge .either f memory).1.mayEnd && i.accepts f)
  goesOn : ∀ i f memory, (g.judge i f memory).1.mayGoOn = (g.judge .either f memory).1.mayGoOn
  remembers : ∀ i f memory, (g.judge i f memory).2 = (g.judge .either f memory).2

theorem Heeds.accepts {g : Gait} (heeds : g.Heeds) {i : Intent} {f : Footing} {memory : g.Memory}
    (h : (g.judge i f memory).1.mayEnd = true) : i.accepts f = true := by
  rw [heeds.ends, Bool.and_eq_true] at h
  exact h.2

/-- To go anywhere accepts whatever another intent does. -/
@[simp] theorem either_accepts_and (i : Intent) (f : Footing) :
    (Intent.either.accepts f && i.accepts f) = i.accepts f := by
  cases i <;> cases f <;> rfl

theorem slide_heeds : slide.Heeds where
  ends i f memory := by simp [slide]
  goesOn i f memory := by simp [slide]
  remembers _ _ _ := rfl

theorem leap_heeds : leap.Heeds where
  ends i f memory := by simp [leap]
  goesOn i f memory := by simp [leap]
  remembers _ _ _ := rfl

theorem catapult_heeds : catapult.Heeds where
  ends i f launched := by
    cases launched with
    | false => cases f <;> rfl
    | true => simp [catapult]
  goesOn i f launched := by
    cases launched with
    | false => rfl
    | true => simp [catapult]
  remembers i f launched := by
    cases launched <;> rfl

theorem grasshopper_heeds : grasshopper.Heeds where
  ends i f hopped := by
    cases hopped with
    | false => rfl
    | true => simp [grasshopper]
  goesOn i f hopped := by
    cases hopped with
    | false => rfl
    | true => simp [grasshopper]
  remembers i f hopped := by
    cases hopped <;> rfl

theorem leapfrog_heeds : leapfrog.Heeds where
  ends i f (taken : Nat) := by
    by_cases even : taken % 2 = 0
    · cases f <;> simp [leapfrog, even, Verdict.mayEnd]
    · simp [leapfrog, even]
  goesOn i f (taken : Nat) := by
    by_cases even : taken % 2 = 0
    · simp [leapfrog, even]
    · simp [leapfrog, even]
  remembers i f (taken : Nat) := by
    by_cases even : taken % 2 = 0
    · simp [leapfrog, even]
    · simp [leapfrog, even]

section Follow

variable (g : Gait) (i : Intent) (b : Board) (side : Side) (memory : g.Memory) (s : Square)
  (step : Step)

theorem follow_singleton : g.follow i b side memory s [step] =
    if b.contains (s + step) && (g.judge i (b.footing side (s + step)) memory).1.mayEnd
    then some (s + step) else none := by
  by_cases inside : b.contains (s + step) = true
  · simp [follow, inside]
  · simp [follow, inside]

theorem follow_cons_cons (next : Step) (rest : Route) :
    g.follow i b side memory s (step :: next :: rest) =
      if b.contains (s + step) && (g.judge i (b.footing side (s + step)) memory).1.mayGoOn
      then g.follow i b side (g.judge i (b.footing side (s + step)) memory).2 (s + step)
        (next :: rest)
      else none := by
  by_cases inside : b.contains (s + step) = true
  · simp [follow, inside]
  · simp [follow, inside]

end Follow

section Arrive

variable {g : Gait} {i : Intent} {b : Board} {side : Side} {memory : g.Memory} {s t : Square}

theorem follow_singleton_eq_some {step : Step} : g.follow i b side memory s [step] = some t ↔
    b.contains t = true ∧ (g.judge i (b.footing side t) memory).1.mayEnd = true ∧ s + step = t := by
  rw [follow_singleton, Option.ite_none_right_eq_some, Bool.and_eq_true, Option.some.injEq, and_assoc]
  constructor
  · rintro ⟨inside, ends, rfl⟩
    exact ⟨inside, ends, rfl⟩
  · rintro ⟨inside, ends, rfl⟩
    exact ⟨inside, ends, rfl⟩

theorem follow_cons_eq_some {step : Step} {rest : Route} (more : rest ≠ []) :
    g.follow i b side memory s (step :: rest) = some t ↔ b.contains (s + step) = true ∧
      (g.judge i (b.footing side (s + step)) memory).1.mayGoOn = true ∧
      g.follow i b side (g.judge i (b.footing side (s + step)) memory).2 (s + step) rest = some t := by
  obtain ⟨next, rest, rfl⟩ := List.exists_cons_of_ne_nil more
  rw [follow_cons_cons, Option.ite_none_right_eq_some, Bool.and_eq_true, and_assoc]

theorem follow_lands (heeds : g.Heeds) {route : Route} (h : g.follow i b side memory s route = some t) :
    b.contains t = true ∧ i.accepts (b.footing side t) = true := by
  induction route generalizing memory s with
  | nil => simp [follow] at h
  | cons step rest ih =>
      cases rest with
      | nil =>
          obtain ⟨inside, ends, _⟩ := follow_singleton_eq_some.1 h
          exact ⟨inside, heeds.accepts ends⟩
      | cons next rest => exact ih ((follow_cons_eq_some (List.cons_ne_nil next rest)).1 h).2.2

end Arrive

end Gait

theorem Motion.gait_heeds (m : Motion) : m.gait.Heeds := by
  cases m with
  | walker | rider => exact Gait.slide_heeds
  | leaper | leaprider => exact Gait.leap_heeds
  | catapult => exact Gait.catapult_heeds
  | grasshopper => exact Gait.grasshopper_heeds
  | leapfrog => exact Gait.leapfrog_heeds

theorem Mover.destination_lands {m : Mover} {i : Intent} {b : Board} {p : Piece} {s : Square}
    (h : s ∈ m.destinations i b p) :
    b.contains s = true ∧ i.accepts (b.footing p.side s) = true := by
  obtain ⟨route, _, leads⟩ := List.mem_filterMap.1 h
  exact Gait.follow_lands m.motion.gait_heeds leads

theorem Intent.ne_friend_of_accepts {i : Intent} {f : Footing} (h : i.accepts f = true) :
    f ≠ .friend := by
  intro friend
  rw [friend] at h
  cases h

end VariantChess
