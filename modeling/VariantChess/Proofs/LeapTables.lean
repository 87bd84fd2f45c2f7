import VariantChess.Proofs.Expansions

/-!
Leapers and leapriders as they are worked out. With their tables a piece gets exactly to the squares of the
lattice. There is a table of leaps wherever they can be turned round. One of repeated leaps takes more: each
leap, repeated until it is off the board, must not outgrow the numbers first.
-/

namespace VariantChess

/-- Every leap has a multiple that is off the board and can be written down. -/
def LeapSpan.EndsOn (span : LeapSpan) (d : Dimensions) : Prop :=
  ∀ v, span.Holds v → ∃ k : Nat, d.admits (v.scale k) = false ∧ (v.scale? k).isSome = true

namespace Motion

variable {d : Dimensions} {span : LeapSpan} {v : Step}

theorem mem_routes_leaprider_iff (holds : span.Holds v) (k : Nat) :
    straightRoute v k ∈ (leaprider span).routes d ↔
      1 ≤ k ∧ (k * v.row).natAbs < d.rows ∧ (k * v.col).natAbs < d.cols := by
  rw [mem_routes_leaprider, Int.mul_comm, Int.mul_comm (k : Int) v.col]
  constructor
  · rintro ⟨w, _, j, some_way, admitted, same⟩
    obtain ⟨rfl, rfl⟩ := straightRoute_inj some_way same
    exact ⟨some_way, Dimensions.admits_iff.1 admitted⟩
  · rintro ⟨some_way, admitted⟩
    exact ⟨v, holds, k, some_way, Dimensions.admits_iff.2 admitted, rfl⟩

/-- A leap that fits ends just past the last length that does, any other at once. -/
theorem repeatable_iff_endsOn (reversible : span.isReversible = true) :
    (leaprider span).Repeatable d ↔ span.EndsOn d := by
  constructor
  · intro repeatable v holds
    by_cases fits : d.admits v = true
    · refine ⟨repeats d v + 1, ?_, repeatable v (LeapSpan.mem_leaps.2 ⟨holds, fits⟩)⟩
      rw [← Bool.not_eq_true, ← Dimensions.le_repeats_iff holds.1 fits]
      omega
    · refine ⟨1, ?_, ?_⟩
      · rw [Square.scale_one]
        exact Bool.eq_false_iff.2 fits
      · obtain ⟨row, col⟩ := LeapSpan.mild_of_reversible reversible holds
        rw [Square.scale?_isSome_iff, Nat.mul_one, Nat.mul_one]
        exact ⟨row, col⟩
  · intro ends v listed
    obtain ⟨holds, fits⟩ := LeapSpan.mem_leaps.1 listed
    obtain ⟨k, outside, written⟩ := ends v holds
    rw [← Bool.not_eq_true, ← Dimensions.le_repeats_iff holds.1 fits] at outside
    rw [Square.scale?_of_le (Nat.succ_le_of_lt (Nat.lt_of_not_le outside)) written]
    rfl

theorem isSome_expand?_leaper (some_way : 0 < max d.rows d.cols) :
    ((leaper span).expand? d).isSome = true ↔ span.isReversible = true := by
  constructor
  · intro worked
    obtain ⟨routes, made⟩ := Option.isSome_iff_exists.1 worked
    exact (of_expand?_leaper made).1
  · intro reversible
    rw [expand?_leaper some_way reversible]
    rfl

theorem isSome_expand?_leaprider (some_way : 0 < max d.rows d.cols) :
    ((leaprider span).expand? d).isSome = true ↔ span.isReversible = true ∧ span.EndsOn d := by
  constructor
  · intro worked
    obtain ⟨routes, made⟩ := Option.isSome_iff_exists.1 worked
    have reversible := (of_expand?_leaprider made).1
    exact ⟨reversible, (repeatable_iff_endsOn reversible).1 (repeatable_of_expand? made)⟩
  · rintro ⟨reversible, ends⟩
    rw [expand?_leaprider some_way reversible ((repeatable_iff_endsOn reversible).2 ends)]
    rfl

end Motion

/-- Leaps have the tables of both sides if they have one of them. -/
theorem Mover.isSome_make?_of_leaps {d : Dimensions} {m : Motion} {span : LeapSpan}
    (leaps : m = .leaper span ∨ m = .leaprider span) :
    (make? d m).isSome = true ↔ (m.expand? d).isSome = true := by
  constructor
  · intro made
    obtain ⟨mover, both⟩ := Option.isSome_iff_exists.1 made
    rw [make?, Option.bind_eq_bind, Option.bind_eq_some_iff] at both
    obtain ⟨routes, worked, _⟩ := both
    rw [worked]
    rfl
  · intro worked
    obtain ⟨routes, forth⟩ := Option.isSome_iff_exists.1 worked
    obtain rfl := Motion.eq_of_expand? forth
    rw [make?_of_leaps leaps forth]
    rfl

end VariantChess
