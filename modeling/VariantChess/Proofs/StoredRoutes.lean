import VariantChess.Proofs.Restored
import VariantChess.Proofs.RouteShapes

/-!
Routes that can be stored. The routes of a motion are made of its own steps, of their reflections and of
leaps that fit on the board. On a board that 32-bit coordinates can address all of these fit, and so do
Black's, which go the other way along the rows; so a rule built from a plan can be stored.
-/

namespace VariantChess

open Stored

/-! Steps that can be turned round. -/

/-- Both coordinates fit, and so do their opposites. -/
structure Square.Mild (s : Square) : Prop where
  row : 2 * s.row.natAbs < UInt32.size
  col : 2 * s.col.natAbs < UInt32.size

namespace Square

variable {s : Square}

theorem fitsInt_of_natAbs {n : Int} (h : 2 * n.natAbs < UInt32.size) : FitsInt n := by
  have low : Int32.minValue.toInt = -2147483648 := rfl
  have high : Int32.maxValue.toInt = 2147483647 := rfl
  unfold UInt32.size at h
  unfold FitsInt
  omega

theorem Mild.storable (mild : s.Mild) : s.Storable :=
  ⟨fitsInt_of_natAbs mild.row, fitsInt_of_natAbs mild.col⟩

theorem Mild.flipCol (mild : s.Mild) : s.flipCol.Mild := by
  refine ⟨mild.row, ?_⟩
  rw [Square.flipCol, Int.natAbs_neg]
  exact mild.col

theorem Mild.flipRow (mild : s.Mild) : s.flipRow.Mild := by
  refine ⟨?_, mild.col⟩
  rw [Square.flipRow, Int.natAbs_neg]
  exact mild.row

theorem mild_of_admits {d : Dimensions} (addressable : d.Addressable) (h : d.admits s = true) :
    s.Mild := by
  obtain ⟨rows, cols⟩ := addressable
  simp only [Dimensions.admits, Bool.and_eq_true, decide_eq_true_eq] at h
  exact ⟨by omega, by omega⟩

theorem mild_of_mem_canonical (h : s ∈ Step.canonical) : s.Mild := by
  have all : ∀ s ∈ Step.canonical, 2 * s.row.natAbs < 3 ∧ 2 * s.col.natAbs < 3 := by decide
  obtain ⟨row, col⟩ := all s h
  exact ⟨row.trans (by decide), col.trans (by decide)⟩

end Square

/-! Routes. -/

/-- Every step of every route can be turned round. -/
def Mild (routes : List Route) : Prop := ∀ route ∈ routes, ∀ s ∈ route, s.Mild

theorem LeapSpan.mild_leaps (r : LeapSpan) {d : Dimensions} (addressable : d.Addressable) :
    ∀ s ∈ r.leaps d, s.Mild := by
  intro s listed
  simp only [leaps, List.mem_eraseDups, List.mem_flatMap, List.mem_filter, Bool.and_eq_true] at listed
  obtain ⟨_, _, _, _, _, _, admitted⟩ := listed
  exact Square.mild_of_admits addressable admitted

namespace Motion

theorem mild_routes {d : Dimensions} (addressable : d.Addressable) {m : Motion}
    (mild : ∀ s ∈ m.steps, s.Mild) : Mild (m.routes d) := by
  refine forall_mem_routes (fun s (calm : s.Mild) => calm.flipCol) mild ?_
  cases m with
  | leaper span | leaprider span => exact span.mild_leaps addressable
  | _ => exact List.forall_mem_nil _

/-- A motion whose rule can be stored on every board with addressable squares. -/
structure Buildable (m : Motion) : Prop where
  storable : m.Storable
  mild : ∀ s ∈ m.steps, s.Mild

theorem Buildable.storable_make {m : Motion} (h : m.Buildable) {d : Dimensions}
    (addressable : d.Addressable) : (Mover.make d m).Storable := by
  have calm := mild_routes addressable h.mild
  refine ⟨h.storable, fun route listed s inside => (calm route listed s inside).storable, ?_⟩
  refine List.forall_mem_map.2 ?_
  intro route listed
  refine List.forall_mem_map.2 ?_
  intro s inside
  exact (calm route listed s inside).flipRow.storable

end Motion

theorem Plan.storable_build {plan : Plan} (h : plan.Storable Motion.Buildable) {d : Dimensions}
    (addressable : d.Addressable) : (plan.build d).Storable Mover.Storable := by
  obtain ⟨partner_fits, parts⟩ := h
  refine ⟨?_, ?_⟩
  · intro partner m same
    cases plan with
    | exchange partner' m' =>
        cases same
        exact partner_fits _ _ rfl
    | _ => cases same
  · rw [build, Pattern.parts_map, List.forall_mem_map]
    intro m listed
    exact (parts m listed).storable_make addressable

end VariantChess
