import Mathlib.Algebra.Order.BigOperators.Group.List
import VariantChess.Evaluator
import VariantChess.Proofs.Execution

/-!
Material. No type is worth less than nothing, so what leaves the board can only lower the worth of
the pieces that stay, and the lead of a side never exceeds that worth. What one side leads by, the
other lacks. As long as all that stands is worth a 32-bit number, so is every sum on the way to a lead.
-/

namespace VariantChess.Evaluator

/-- No type counts against its owner. -/
def Fair (e : Evaluator) : Prop := ∀ kind, 0 ≤ e.value kind

/-- What all the pieces on a board are worth together. -/
def material (e : Evaluator) (b : Board) : Int := (b.pieces.map fun q => e.value q.kind).sum

theorem worth_nonneg (types : Roster) (d : Dimensions) (kind : Nat) (t : PieceType) :
    0 ≤ worth types d kind t := by
  unfold worth
  split
  · exact le_rfl
  · exact Int.natCast_nonneg _

/-- A type is valued at its own number. -/
theorem value_make (types : Roster) (d : Dimensions) (kind : Nat) :
    (make types d).value kind = types[kind]?.elim 0 (worth types d kind) := by
  rw [value, make, List.getD_eq_getElem?_getD, List.getElem?_map, List.getElem?_zipIdx, Nat.zero_add]
  cases types[kind]? <;> rfl

theorem fair_make (types : Roster) (d : Dimensions) : (make types d).Fair := by
  intro kind
  rw [value_make]
  cases types[kind]? with
  | none => exact le_rfl
  | some t => exact worth_nonneg types d kind t

variable {e : Evaluator} {p : Position} {m : Move}

/-- Worth is counted by label. -/
theorem sum_value_eq (e : Evaluator) (qs : List Piece) : (qs.map fun q => e.value q.kind).sum =
    (Multiset.map (fun label : Side × Nat => e.value label.2) ↑(qs.map Piece.label)).sum := by
  rw [Multiset.map_coe, Multiset.sum_coe, List.map_map]
  rfl

theorem material_eq_census (e : Evaluator) (b : Board) :
    e.material b = (b.census.map fun label => e.value label.2).sum :=
  sum_value_eq e b.pieces

theorem material_boardAfter (fits : p.Fits m) :
    e.material (p.boardAfter m) + ((p.taken m).map fun q => e.value q.kind).sum =
      e.material p.board := by
  rw [sum_value_eq, material_eq_census, material_eq_census, ← Position.census_boardAfter fits,
    Multiset.map_add, Multiset.sum_add]

theorem material_boardAfter_le (fair : e.Fair) (fits : p.Fits m) :
    e.material (p.boardAfter m) ≤ e.material p.board := by
  have lost : 0 ≤ ((p.taken m).map fun q => e.value q.kind).sum := by
    apply List.sum_nonneg
    intro v listed
    obtain ⟨q, _, rfl⟩ := List.mem_map.1 listed
    exact fair q.kind
  have whole := material_boardAfter (e := e) fits
  omega

theorem stake_other (e : Evaluator) (side : Side) (q : Piece) :
    e.stake side.other q = -e.stake side q := by
  unfold stake
  cases q.side <;> cases side <;> simp [Side.other]

theorem lead_eq_sum (e : Evaluator) (b : Board) (side : Side) :
    e.lead b side = (b.pieces.map (e.stake side)).sum := by
  rw [lead, List.sum_eq_foldl, List.foldl_map]

theorem lead_other (e : Evaluator) (b : Board) (side : Side) :
    e.lead b side.other = -e.lead b side := by
  rw [lead_eq_sum, lead_eq_sum, List.sum_neg, List.map_map]
  congr 2
  funext q
  exact stake_other e side q

theorem stake_le_value (fair : e.Fair) (side : Side) (q : Piece) :
    e.stake side q ≤ e.value q.kind := by
  have worth := fair q.kind
  unfold stake
  split <;> omega

theorem lead_le_material (fair : e.Fair) (b : Board) (side : Side) :
    e.lead b side ≤ e.material b := by
  rw [lead_eq_sum]
  apply List.sum_le_sum
  intro q _
  exact stake_le_value fair side q

theorem neg_material_le_lead (fair : e.Fair) (b : Board) (side : Side) :
    -e.material b ≤ e.lead b side := by
  have opposite := lead_le_material fair b side.other
  rw [lead_other] at opposite
  omega

/-! Sums that are numbers. -/

theorem eq_of_int32? {x y : Int} (h : int32? x = some y) : y = x :=
  (Option.some.inj (Option.ite_none_right_eq_some.1 h).2).symm

theorem int32?_eq {x : Int} (short : 2 * x.natAbs < UInt32.size) : int32? x = some x := by
  refine if_pos ?_
  simp only [UInt32.size] at short ⊢
  omega

section Sums

variable {side : Side} {qs : List Piece} {x y : Int}

theorem eq_of_foldlM_stake (h : qs.foldlM (fun lead q => int32? (lead + e.stake side q)) x = some y) :
    y = qs.foldl (fun lead q => lead + e.stake side q) x := by
  induction qs generalizing x with
  | nil => exact (Option.some.inj h).symm
  | cons q rest ih =>
      rw [List.foldlM_cons, Option.bind_eq_bind, Option.bind_eq_some_iff] at h
      obtain ⟨z, summed, later⟩ := h
      rw [List.foldl_cons, ← eq_of_int32? summed]
      exact ih later

/-- Each sum is off by no more than the worth of the pieces that were counted. -/
theorem foldlM_stake_eq (fair : e.Fair)
    (short : 2 * (x.natAbs + (qs.map fun q => e.value q.kind).sum) < UInt32.size) :
    qs.foldlM (fun lead q => int32? (lead + e.stake side q)) x =
      some (qs.foldl (fun lead q => lead + e.stake side q) x) := by
  induction qs generalizing x with
  | nil => rfl
  | cons q rest ih =>
      rw [List.map_cons, List.sum_cons] at short
      have others : 0 ≤ (rest.map fun q => e.value q.kind).sum :=
        List.sum_nonneg (List.forall_mem_map.2 fun q _ => fair q.kind)
      have most := stake_le_value fair side q
      have least := stake_le_value fair side.other q
      rw [stake_other] at least
      rw [List.foldlM_cons, int32?_eq (by omega), Option.bind_eq_bind, Option.bind_some, List.foldl_cons]
      exact ih (by omega)

end Sums

theorem eq_of_lead? {b : Board} {side : Side} {n : Int} (h : e.lead? b side = some n) :
    n = e.lead b side :=
  eq_of_foldlM_stake h

theorem lead?_eq (fair : e.Fair) {b : Board} (short : 2 * e.material b < UInt32.size) (side : Side) :
    e.lead? b side = some (e.lead b side) := by
  refine foldlM_stake_eq fair ?_
  rw [Int.natAbs_zero, Int.natCast_zero, Int.zero_add]
  exact short

end VariantChess.Evaluator
