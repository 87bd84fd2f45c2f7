import VariantChess.Proofs.DrawnSteps

/-!
Motions that may be drawn. The tables have options and bound every number. Which tables are used depends
on the tier of the piece, and a queen takes every step unless it walks.
-/

namespace VariantChess

/-- Both distances are between the bounds. -/
structure LeapSpan.Within (low high : Int) (span : LeapSpan) : Prop where
  mMin : low ≤ span.mMin
  m : span.mMin ≤ span.mMax
  mMax : span.mMax ≤ high
  nMin : low ≤ span.nMin
  n : span.nMin ≤ span.nMax
  nMax : span.nMax ≤ high

theorem LeapSpan.Within.mono {low high low' high' : Int} {span : LeapSpan} (h : span.Within low high)
    (down : low' ≤ low) (up : high ≤ high') : span.Within low' high' :=
  ⟨Int.le_trans down h.mMin, h.m, Int.le_trans h.mMax up, Int.le_trans down h.nMin, h.n,
    Int.le_trans h.nMax up⟩

/-- The parameters of a motion that a tier may draw. -/
def Motion.Drawn (tier : Tier) : Motion → Prop
  | walker steps min max => Step.Choice steps ∧ 1 ≤ min ∧ min ≤ max ∧ max ≤ 3
  | leaper span => span.Within 0 5
  | leaprider span => span.Within 1 4
  | rider steps | catapult steps | grasshopper steps =>
    Step.Choice steps ∧ (tier = .queen → steps = Step.canonical)
  | leapfrog steps limit =>
    Step.Choice steps ∧ (tier = .queen → steps = Step.canonical) ∧ 1 ≤ limit ∧ limit ≤ 4

namespace Guarded

variable {σ : Type} [RandomSource σ]

/-! Steps. -/

theorem yields_walkerSteps (tier : Tier) :
    Yields Step.Choice (walkerSteps tier : OptionT (StateM σ) (List Step)) (Draw.walkerSteps tier) := by
  unfold walkerSteps Draw.walkerSteps
  split
  · exact yields_steps (List.cons_ne_nil _ _)
  · exact yields_steps (List.cons_ne_nil _ _)

theorem choice_canonical : Step.Choice Step.canonical :=
  ⟨by decide, fun _ listed => listed, ⟨1, 0⟩, by decide, by decide⟩

theorem yields_lineSteps (tier : Tier) :
    Yields (fun steps => Step.Choice steps ∧ (tier = .queen → steps = Step.canonical))
      (lineSteps tier : OptionT (StateM σ) (List Step)) (Draw.lineSteps tier) := by
  unfold lineSteps Draw.lineSteps
  by_cases queen : tier = .queen
  · rw [if_pos queen, if_pos queen]
    exact yields_pure ⟨choice_canonical, fun _ => rfl⟩
  · rw [if_neg queen, if_neg queen]
    exact (yields_walkerSteps tier).imp fun _ choice => ⟨choice, fun q => (queen q).elim⟩

/-! Distances and counts. -/

theorem yields_walkerSpan (tier : Tier) :
    Yields (fun span => 1 ≤ span.1 ∧ span.1 ≤ span.2 ∧ span.2 ≤ 3)
      (walkerSpan tier : OptionT (StateM σ) (Nat × Nat)) (Draw.walkerSpan tier) := by
  have major : Yields (fun span : Nat × Nat => 1 ≤ span.1 ∧ span.1 ≤ span.2 ∧ span.2 ≤ 3)
      (do
        let min ← pick Tables.majorWalkerMin
        return (min, min + (← pick Tables.majorWalkerExtra)) : OptionT (StateM σ) (Nat × Nat))
      (do
        let min ← Tables.majorWalkerMin.pick
        return (min, min + (← Tables.majorWalkerExtra.pick))) := by
    refine yields_bind (yields_pick (P := fun n => 1 ≤ n ∧ n ≤ 2) (List.cons_ne_nil _ _) (by decide)) ?_
    intro min bounds
    refine yields_bind (yields_pick (P := (· ≤ 1)) (List.cons_ne_nil _ _) (by decide)) ?_
    intro extra more
    exact yields_pure ⟨by omega, by omega, by omega⟩
  cases tier with
  | minor =>
      refine yields_bind (yields_pick (P := fun n => 1 ≤ n ∧ n ≤ 2) (List.cons_ne_nil _ _) (by decide)) ?_
      intro min bounds
      exact yields_pure ⟨by omega, by omega, by omega⟩
  | queen =>
      refine yields_bind (yields_pick (P := (· ≤ 2)) (List.cons_ne_nil _ _) (by decide)) ?_
      intro extra more
      exact yields_pure ⟨by omega, by omega, by omega⟩
  | lowly => exact major
  | major => exact major
  | king => exact major

section Spans

variable {min extra : Odds Int} (options : min.options ≠ [])
include options

theorem yields_singleLeap {low high : Int}
    (bounded : ∀ n ∈ min.options.map (·.1), low ≤ n ∧ n ≤ high) :
    Yields (LeapSpan.Within low high) (singleLeap min : OptionT (StateM σ) LeapSpan)
      (Draw.singleLeap min) := by
  refine yields_bind (yields_pick options bounded) ?_
  intro m m_bounds
  refine yields_bind (yields_pick options bounded) ?_
  intro n n_bounds
  exact yields_pure ⟨m_bounds.1, Int.le_refl m, m_bounds.2, n_bounds.1, Int.le_refl n, n_bounds.2⟩

theorem yields_leapSpan {low high most : Int} (more : extra.options ≠ [])
    (bounded : ∀ n ∈ min.options.map (·.1), low ≤ n ∧ n ≤ high)
    (extra_bounded : ∀ n ∈ extra.options.map (·.1), 0 ≤ n ∧ n ≤ most) :
    Yields (LeapSpan.Within low (high + most)) (leapSpan min extra : OptionT (StateM σ) LeapSpan)
      (Draw.leapSpan min extra) := by
  refine yields_bind (yields_pick options bounded) ?_
  intro m m_bounds
  refine yields_bind (yields_pick more extra_bounded) ?_
  intro wider wider_bounds
  refine yields_bind (yields_pick options bounded) ?_
  intro n n_bounds
  refine yields_bind (yields_pick more extra_bounded) ?_
  intro taller taller_bounds
  refine yields_pure ⟨m_bounds.1, ?_, ?_, n_bounds.1, ?_, ?_⟩ <;> dsimp only <;> omega

end Spans

/-! Motions. -/

/-- A tier draws the motions that its table has with parameters of its own. -/
theorem parameterTier_of_listed {kind : MotionKind} {tier : Tier}
    (listed : tier.kinds.contains (.simple kind) = true) (lesser : tier ≠ .king) :
    Draw.parameterTier kind tier = tier := by
  unfold Draw.parameterTier
  rw [listed, Bool.true_and, if_pos (bne_iff_ne.2 lesser)]

theorem yields_motion (kind : MotionKind) (tier : Tier) :
    Yields (fun m => m.kind = kind ∧ m.Drawn (Draw.parameterTier kind tier))
      (motion kind tier : OptionT (StateM σ) Motion) (Draw.motion kind tier) := by
  unfold motion Draw.motion
  dsimp only
  generalize Draw.parameterTier kind tier = tier
  cases kind with
  | walker =>
      refine yields_bind (yields_walkerSpan tier) ?_
      intro ⟨min, max⟩ bounds
      refine yields_bind (yields_walkerSteps tier) ?_
      intro steps choice
      exact yields_pure ⟨rfl, choice, bounds⟩
  | rider =>
      refine yields_bind (yields_lineSteps tier) ?_
      intro steps lines
      exact yields_pure ⟨rfl, lines⟩
  | leaper =>
      have leaper {low high : Int} {guarded : OptionT (StateM σ) LeapSpan} {draw : StateM σ LeapSpan}
          (down : 0 ≤ low) (up : high ≤ 5) (h : Yields (LeapSpan.Within low high) guarded draw) :
          Yields (fun m : Motion => m.kind = .leaper ∧ m.Drawn tier) (do return .leaper (← guarded))
            (do return .leaper (← draw)) :=
        yields_bind h fun _ within => yields_pure ⟨rfl, within.mono down up⟩
      have minor : Yields (LeapSpan.Within 1 3) (singleLeap Tables.minorLeaperMin : OptionT (StateM σ) _) _ :=
        yields_singleLeap (List.cons_ne_nil _ _) (by decide)
      have major : Yields (LeapSpan.Within 1 (3 + 2))
          (leapSpan Tables.majorLeaperMin Tables.majorLeaperExtra : OptionT (StateM σ) _) _ :=
        yields_leapSpan (List.cons_ne_nil _ _) (List.cons_ne_nil _ _) (by decide) (by decide)
      have queen : Yields (LeapSpan.Within 0 (1 + 3))
          (leapSpan Tables.queenLeaperMin Tables.queenLeaperExtra : OptionT (StateM σ) _) _ :=
        yields_leapSpan (List.cons_ne_nil _ _) (List.cons_ne_nil _ _) (by decide) (by decide)
      cases tier with
      | minor => exact leaper (by decide) (by decide) minor
      | queen => exact leaper (by decide) (by decide) queen
      | _ => exact leaper (by decide) (by decide) major
  | leaprider =>
      have leaprider {high : Int} {guarded : OptionT (StateM σ) LeapSpan} {draw : StateM σ LeapSpan}
          (up : high ≤ 4) (h : Yields (LeapSpan.Within 1 high) guarded draw) :
          Yields (fun m : Motion => m.kind = .leaprider ∧ m.Drawn tier)
            (do return .leaprider (← guarded)) (do return .leaprider (← draw)) :=
        yields_bind h fun _ within => yields_pure ⟨rfl, within.mono (Int.le_refl 1) up⟩
      have major : Yields (LeapSpan.Within 1 3)
          (singleLeap Tables.majorLeapriderMin : OptionT (StateM σ) _) _ :=
        yields_singleLeap (List.cons_ne_nil _ _) (by decide)
      have queen : Yields (LeapSpan.Within 1 (2 + 2))
          (leapSpan Tables.queenLeapriderMin Tables.queenLeapriderExtra : OptionT (StateM σ) _) _ :=
        yields_leapSpan (List.cons_ne_nil _ _) (List.cons_ne_nil _ _) (by decide) (by decide)
      cases tier with
      | queen => exact leaprider (by decide) queen
      | _ => exact leaprider (by decide) major
  | catapult =>
      refine yields_bind (yields_lineSteps tier) ?_
      intro steps lines
      exact yields_pure ⟨rfl, lines⟩
  | grasshopper =>
      refine yields_bind (yields_lineSteps tier) ?_
      intro steps lines
      exact yields_pure ⟨rfl, lines⟩
  | leapfrog =>
      refine yields_bind (yields_lineSteps tier) ?_
      intro steps ⟨choice, queen⟩
      refine yields_bind (yields_pick (P := fun n => 1 ≤ n ∧ n ≤ 4) (List.cons_ne_nil _ _) (by decide)) ?_
      intro limit bounds
      exact yields_pure ⟨rfl, choice, queen, bounds⟩

end Guarded

end VariantChess
