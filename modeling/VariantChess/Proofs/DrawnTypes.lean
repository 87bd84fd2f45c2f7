import VariantChess.Proofs.DrawnRosters

/-!
Piece types that are drawn can be stored. A drawn motion has at most five steps, all canonical, and only
small numbers, so its rule can be built on any board with addressable squares.
-/

namespace VariantChess

namespace Draw

open Stored

theorem fitsNat_of_le {n : Nat} (small : n ≤ 10) : FitsNat n := by
  unfold FitsNat UInt64.size
  omega

theorem fitsInt_of_le {n : Int} (small : n.natAbs ≤ 10) : FitsInt n := by
  refine Square.fitsInt_of_natAbs ?_
  unfold UInt32.size
  omega

/-- At most five steps, all canonical. -/
structure FewCanonical (steps : List Step) : Prop where
  few : steps.length ≤ Motion.maxSteps
  canonical : ∀ s ∈ steps, s ∈ Step.canonical

namespace FewCanonical

variable {steps : List Step} (h : FewCanonical steps)
include h

theorem mild : ∀ s ∈ steps, s.Mild :=
  fun s listed => Square.mild_of_mem_canonical (h.canonical s listed)

theorem stepsFit : Motion.StepsFit steps := ⟨h.few, fun s listed => (h.mild s listed).storable⟩

end FewCanonical

/-- The plan has parts that can be built and names its partner by a number that fits. -/
abbrev Sound (plan : Plan) : Prop := plan.Storable Motion.Buildable

end Draw

/-! Drawn motions and plans. -/

theorem Step.Choice.few {steps : List Step} (choice : Step.Choice steps) : Draw.FewCanonical steps :=
  ⟨(choice.nodup.subperm fun _ listed => choice.canonical _ listed).length_le, choice.canonical⟩

theorem LeapSpan.Within.storable {span : LeapSpan} (within : span.Within 0 5) : span.Storable := by
  obtain ⟨_, _, _, _, _, _⟩ := within
  refine ⟨?_, ?_, ?_, ?_⟩ <;> exact Draw.fitsInt_of_le (by omega)

theorem Motion.Drawn.buildable {tier : Tier} {m : Motion} (h : m.Drawn tier) : m.Buildable := by
  have lines {steps : List Step} (choice : Step.Choice steps) :
      StepsFit steps ∧ ∀ s ∈ steps, s.Mild := ⟨choice.few.stepsFit, choice.few.mild⟩
  cases m with
  | walker steps min max =>
      obtain ⟨choice, _, _, _⟩ := h
      have min_fits : Stored.FitsNat min := Draw.fitsNat_of_le (by omega)
      have max_fits : Stored.FitsNat max := Draw.fitsNat_of_le (by omega)
      exact ⟨⟨(lines choice).1, min_fits, max_fits⟩, (lines choice).2⟩
  | leaper span => exact ⟨LeapSpan.Within.storable h, List.forall_mem_nil _⟩
  | leaprider span =>
      have within : span.Within 0 5 := LeapSpan.Within.mono h (by decide) (by decide)
      exact ⟨within.storable, List.forall_mem_nil _⟩
  | leapfrog steps limit =>
      obtain ⟨choice, _, _, _⟩ := h
      have limit_fits : Stored.FitsNat limit := Draw.fitsNat_of_le (by omega)
      exact ⟨⟨(lines choice).1, limit_fits⟩, (lines choice).2⟩
  | rider steps => exact ⟨(lines h.1).1, (lines h.1).2⟩
  | catapult steps => exact ⟨(lines h.1).1, (lines h.1).2⟩
  | grasshopper steps => exact ⟨(lines h.1).1, (lines h.1).2⟩

theorem Tier.Draws.sound {tier : Tier} {kinds own : Nat} {plan : Plan} (h : tier.Draws kinds own plan)
    (fits : Stored.FitsNat kinds) : Draw.Sound plan := by
  refine ⟨?_, fun m part => (h.drawn m part).buildable⟩
  rintro partner m rfl
  cases tier with
  | lowly => cases h
  | king => cases h
  | _ => exact Nat.lt_trans (Plan.Drawn.partner h partner m rfl).2 fits

theorem Draw.sound_king : Draw.Sound .king := by
  have draws : Tier.king.Draws 1 0 .king := rfl
  exact draws.sound (fitsNat_of_le (by decide))

/-- Drawn types can be stored. -/
theorem Draw.always_pieceTypes {σ : Type} [RandomSource σ] {d : Dimensions} (some_type : 1 ≤ d.kinds)
    (addressable : d.Addressable) (listed : Capacity.holds d.kinds 8 = true) :
    Always (fun types => ∀ t ∈ types, t.Storable) (pieceTypes d : StateM σ Roster) := by
  have fits : Stored.FitsNat d.kinds := Capacity.lt_of_holds (by decide) listed
  refine (always_drawn some_type listed).imp ?_
  intro types drawn t listed
  obtain ⟨i, name, tier, type⟩ := drawn.of_mem listed
  unfold PieceType.Storable
  rw [type.built]
  exact Plan.storable_build (type.plan.sound fits) addressable

end VariantChess
