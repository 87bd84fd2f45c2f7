import Mathlib.Data.List.Nodup
import Mathlib.Data.List.Perm.Basic
import Mathlib.Data.List.Perm.Subperm
import VariantChess.Proofs.GuardedDraws
import VariantChess.Proofs.PossibleDraws

/-!
Steps drawn without replacement. What was drawn and what is left are always the canonical steps in some
order, which keeps the steps different and within the room of five for any count. Every list of such
steps is drawn from some words.
-/

namespace VariantChess

/-- The steps that a motion may draw. -/
structure Step.Choice (steps : List Step) : Prop where
  nodup : steps.Nodup
  canonical : ∀ s ∈ steps, s ∈ Step.canonical
  forward : ∃ s ∈ steps, s ∈ Step.forward

/-- A step forward and different others, in all as many as were asked for. There are five steps, and the
one forward is never left out. -/
structure Step.Drawn (count : Nat) (steps : List Step) : Prop where
  nodup : steps.Nodup
  canonical : ∀ s ∈ steps, s ∈ Step.canonical
  forward : ∃ s ∈ steps.head?, s ∈ Step.forward
  length : steps.length = min (max count 1) 5

theorem Step.Drawn.choice {count : Nat} {steps : List Step} (drawn : Step.Drawn count steps) :
    Step.Choice steps := by
  obtain ⟨first, begins, ahead⟩ := drawn.forward
  exact ⟨drawn.nodup, drawn.canonical, first, List.mem_of_mem_head? begins, ahead⟩

namespace Guarded

variable {σ : Type} [RandomSource σ]

theorem perm_move {α : Type} (drawn rest : List α) {i : Nat} (inside : i < rest.length) :
    (drawn ++ [rest[i]] ++ rest.eraseIdx i).Perm (drawn ++ rest) := by
  rw [List.append_assoc]
  exact (List.getElem_cons_eraseIdx_perm inside).append_left drawn

/-- What is drawn comes first in a rearrangement of what there was. -/
theorem yields_fill {α : Type} {count : Nat} (left : Nat) {drawn rest : List α}
    (room : drawn.length + min left (count - drawn.length) ≤ Motion.maxSteps)
    (enough : left ≤ rest.length) (fits : rest.length ≤ UInt64.size) :
    Yields (fun xs => drawn <+: xs ∧ xs.length = drawn.length + min left (count - drawn.length) ∧
        ∃ others, (xs ++ others).Perm (drawn ++ rest))
      (fill count left drawn rest : OptionT (StateM σ) (List α)) (Draw.fill count left drawn rest) := by
  induction left generalizing drawn rest with
  | zero => exact yields_pure ⟨List.prefix_rfl, by simp, rest, .refl _⟩
  | succ left ih =>
      rw [fill, Draw.fill]
      by_cases more : drawn.length < count
      · rw [if_pos more, if_pos more]
        -- as many are left as may still be drawn, so there is one to draw and room for it
        refine yields_bind (yields_below (by omega) fits) ?_
        intro i inside
        have found := List.getElem?_eq_getElem inside
        have grown : push drawn rest[i] = some (drawn ++ [rest[i]]) := if_pos (by omega)
        refine yields_read found ?_
        refine yields_read grown ?_
        rw [found, Option.toList_some]
        have longer : (drawn ++ [rest[i]]).length = drawn.length + 1 := List.length_append
        have shorter := List.length_eraseIdx_of_lt inside
        refine (ih (by omega) (by omega) (by omega)).imp ?_
        intro xs ⟨begins, long, others, same⟩
        exact ⟨(List.prefix_append _ _).trans begins, by omega, others,
          same.trans (perm_move _ _ inside)⟩
      · rw [if_neg more, if_neg more]
        exact yields_pure ⟨List.prefix_rfl, by omega, rest, .refl _⟩

/-- The first step and the steps it leaves to choose from are the canonical ones. -/
theorem choice_of_first {first : Step} (ahead : first ∈ Step.forward) :
    ([first] ++ Step.canonical.filter (! [first].contains ·)).Perm Step.canonical := by
  simp only [Step.forward, List.mem_cons, List.not_mem_nil, or_false] at ahead
  rcases ahead with rfl | rfl <;> decide

theorem length_rest {first : Step} (ahead : first ∈ Step.forward) :
    (Step.canonical.filter (! [first].contains ·)).length = 4 :=
  Nat.succ.inj (choice_of_first ahead).length_eq

theorem steps_run {counts : Odds Nat} (options : counts.options ≠ []) (s : σ) :
    (steps counts).run.run s = (some ((Draw.steps counts).run s).1, ((Draw.steps counts).run s).2) ∧
      (counts.pick.run s).1 ∈ counts.options.map (·.1) ∧
      Step.Drawn (counts.pick.run s).1 ((Draw.steps counts).run s).1 := by
  refine bind_run (R := Step.Drawn) (g := fun steps => steps) (yields_pick options fun _ => id) ?_ s
  intro count _
  refine yields_bind (yields_below (n := Step.forward.length) (by decide) (by decide)) ?_
  intro i inside
  have ahead : Step.forward[i] ∈ Step.forward := List.getElem_mem inside
  rw [List.getElem?_eq_getElem inside, Option.toList_some]
  generalize Step.forward[i] = first at ahead ⊢
  have begun : push [] first = some [first] := rfl
  refine yields_read rfl ?_
  refine yields_read begun ?_
  dsimp only
  -- nothing is known of the count, but only four more steps can come
  have four := length_rest ahead
  have room : [first].length + min 4 (count - [first].length) ≤ Motion.maxSteps :=
    Nat.add_le_add_left (Nat.min_le_left _ _) 1
  have fits : 4 ≤ UInt64.size := by decide
  rw [four]
  refine (yields_fill 4 room (Nat.le_of_eq four.symm) (four ▸ fits)).imp ?_
  intro steps ⟨begins, long, others, same⟩
  have pool := same.trans (choice_of_first ahead)
  have pool_nodup : (steps ++ others).Nodup := pool.nodup_iff.2 (by decide)
  refine ⟨(List.nodup_append.1 pool_nodup).1,
    fun s listed => pool.subset (List.mem_append_left _ listed), ⟨first, ?_, ahead⟩, ?_⟩
  · obtain ⟨later, rfl⟩ := begins
    rfl
  · rw [long, List.length_singleton]
    omega

theorem yields_steps {counts : Odds Nat} (options : counts.options ≠ []) :
    Yields Step.Choice (steps counts : OptionT (StateM σ) (List Step)) (Draw.steps counts) :=
  fun s => ⟨(steps_run options s).1, (steps_run options s).2.2.choice⟩

end Guarded

namespace Draw

/-- Behind the first step, some of those that it leaves. -/
theorem others_of_drawn {count : Nat} {steps : List Step} (drawn : Step.Drawn count steps) :
    ∃ first others, steps = first :: others ∧ first ∈ Step.forward ∧
      others.Subperm (Step.canonical.filter (! [first].contains ·)) ∧
      others.length = min 4 (count - 1) := by
  obtain ⟨first, begins, ahead⟩ := drawn.forward
  obtain ⟨others, rfl⟩ := List.head?_eq_some_iff.1 begins
  obtain ⟨apart, nodup⟩ := List.nodup_cons.1 drawn.nodup
  refine ⟨first, others, rfl, ahead, ?_, ?_⟩
  · refine List.subperm_of_subset nodup ?_
    intro s listed
    have other : s ≠ first := fun same => apart (same ▸ listed)
    simp [drawn.canonical s (List.mem_cons_of_mem _ listed), other]
  · have long := drawn.length
    rw [List.length_cons] at long
    omega

section Sources

variable {σ : Type} [RandomSource σ]

/-- The member drawn next is found where it stands, and the others are still left. -/
theorem possible_fill [FreeSource σ] {α : Type} {count : Nat} (left : Nat) {drawn rest xs : List α}
    (chosen : xs.Subperm rest) (long : xs.length = min left (count - drawn.length))
    (few : rest.length ≤ UInt64.size) :
    Possible (fill count left drawn rest : StateM σ (List α)) (drawn ++ xs) := by
  induction left generalizing drawn rest xs with
  | zero =>
      rw [List.eq_nil_of_length_eq_zero (long.trans (Nat.zero_min _)), List.append_nil]
      exact possible_pure drawn
  | succ left ih =>
      rw [fill]
      by_cases more : drawn.length < count
      · rw [if_pos more]
        cases xs with
        | nil => rw [List.length_nil] at long; omega
        | cons x xs =>
            rw [List.length_cons] at long
            -- the number to draw is the place of the first one wanted among those that are left
            obtain ⟨i, inside, rfl⟩ := List.mem_iff_getElem.1 (chosen.subset List.mem_cons_self)
            refine possible_bind (possible_below inside few) ?_
            rw [List.getElem?_eq_getElem inside, Option.toList_some, List.append_cons drawn rest[i] xs]
            have taken := List.getElem_cons_eraseIdx_perm inside
            have others : xs.Subperm (rest.eraseIdx i) :=
              (List.subperm_cons rest[i]).1 (chosen.trans taken.symm.subperm)
            have longer : (drawn ++ [rest[i]]).length = drawn.length + 1 := List.length_append
            have shorter := List.length_eraseIdx_of_lt inside
            have long' : xs.length = min left (count - (drawn ++ [rest[i]]).length) := by omega
            exact ih others long' (by omega)
      · have none_left : xs.length = 0 := by omega
        rw [if_neg more, List.eq_nil_of_length_eq_zero none_left, List.append_nil]
        exact possible_pure drawn

/-- Whatever the source, a set of steps fits the count that was drawn for it, and is drawn without fail. From
a free source every list that fits the count may come out behind the same count, whatever is drawn later. -/
theorem steps_drawn {counts : Odds Nat} (options : counts.options ≠ []) :
    (∀ s : σ, (counts.pick.run s).1 ∈ counts.options.map (·.1) ∧
      (Guarded.steps counts).run.run s = (some ((steps counts).run s).1, ((steps counts).run s).2) ∧
      Step.Drawn (counts.pick.run s).1 ((steps counts).run s).1) ∧
    ∀ [FreeSource σ] (s later : σ) (drawn : List Step), Step.Drawn (counts.pick.run s).1 drawn →
      ∃ s' : σ, (counts.pick.run s').1 = (counts.pick.run s).1 ∧
        (steps counts).run s' = (drawn, later) := by
  refine ⟨fun s => ?_, ?_⟩
  · obtain ⟨same, listed, valid⟩ := Guarded.steps_run options s
    exact ⟨listed, same, valid⟩
  intro _ s later drawn fits
  obtain ⟨first, others, rfl, ahead, chosen, long⟩ := others_of_drawn fits
  refine (possible_pick counts s).both ?_ later
  obtain ⟨i, inside, rfl⟩ := List.mem_iff_getElem.1 ahead
  refine possible_bind (possible_below (n := Step.forward.length) inside (by decide)) ?_
  rw [List.getElem?_eq_getElem inside, Option.toList_some]
  have few : (Step.canonical.filter (! [Step.forward[i]].contains ·)).length ≤ UInt64.size := by
    rw [Guarded.length_rest ahead]
    decide
  rw [← Guarded.length_rest ahead] at long
  exact possible_fill _ chosen long few

end Sources

/-- Nine steps are asked for, and all five come in an order of one's choice. -/
theorem steps_drawn_many : (⟨"many", [(9, 1.0)]⟩ : Odds Nat).options ≠ [] ∧
    ∃ s : Endless, (steps ⟨"many", [(9, 1.0)]⟩).run s =
      ([⟨1, 1⟩, ⟨-1, 0⟩, ⟨0, 1⟩, ⟨1, 0⟩, ⟨-1, 1⟩], ⟨fun _ => 0⟩) := by
  have options : (⟨"many", [(9, 1.0)]⟩ : Odds Nat).options ≠ [] := List.cons_ne_nil _ _
  obtain ⟨always, possible⟩ := steps_drawn (σ := Endless) options
  have nine := (always ⟨fun _ => 0⟩).1
  rw [List.map_singleton, List.mem_singleton] at nine
  obtain ⟨s, _, steps⟩ := possible ⟨fun _ => 0⟩ ⟨fun _ => 0⟩ [⟨1, 1⟩, ⟨-1, 0⟩, ⟨0, 1⟩, ⟨1, 0⟩, ⟨-1, 1⟩]
    (nine ▸ ⟨by decide, by decide, by decide, by decide⟩)
  exact ⟨options, s, steps⟩

end Draw

end VariantChess
