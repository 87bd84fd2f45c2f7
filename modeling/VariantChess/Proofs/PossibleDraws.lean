import VariantChess.Odds
import VariantChess.Random.Words

/-!
What may be drawn from a free source. An outcome is possible if it can come out in front of whatever is
to come later; then possible draws one after the other are possible together, and a table may yield
whatever it has yielded once. An endless sequence of words is free: each number below a bound has a word
from which it is drawn, if need be with a second word of 0 behind it.
-/

namespace VariantChess

/-! Words for every number. -/

/-- The least word whose product with the bound reaches so many times the modulus. -/
def WordSource.wordFor (modulus n i : Nat) : Nat := (i * modulus + (n - 1)) / n

section Words

open WordSource

variable {σ : Type} {modulus n i : Nat} (inside : i < n) (fits : n ≤ modulus)
include inside

theorem WordSource.wordFor_mul_bounds :
    i * modulus ≤ wordFor modulus n i * n ∧ wordFor modulus n i * n < i * modulus + n := by
  have split := Nat.div_add_mod (i * modulus + (n - 1)) n
  have cut := Nat.mod_lt (i * modulus + (n - 1)) (show n > 0 by omega)
  rw [Nat.mul_comm] at split
  unfold wordFor
  omega

include fits

theorem WordSource.wordFor_lt : wordFor modulus n i < modulus := by
  have below : wordFor modulus n i * n < i * modulus + n := (wordFor_mul_bounds inside).2
  have next : (i + 1) * modulus ≤ n * modulus := Nat.mul_le_mul_right _ inside
  rw [Nat.add_one_mul, Nat.mul_comm n] at next
  refine Nat.lt_of_mul_lt_mul_right (a := n) ?_
  omega

/-- If any word can come in front, any number can. -/
theorem WordSource.scaled_onto {word : StateM σ Nat}
    (onto : ∀ w < modulus, ∀ later, ∃ s, word s = (w, later)) (later : σ) :
    ∃ s, scaled modulus n word s = (i, later) := by
  have reaches : i * modulus ≤ wordFor modulus n i * n := (wordFor_mul_bounds inside).1
  have below : wordFor modulus n i * n < i * modulus + n := (wordFor_mul_bounds inside).2
  have high : wordFor modulus n i * n / modulus = i :=
    Nat.div_eq_of_lt_le reaches (by rw [Nat.succ_mul]; omega)
  by_cases far : modulus - n < wordFor modulus n i * n % modulus
  · -- the second word is asked for, and with 0 it does not carry
    have positive : 0 < modulus := by omega
    obtain ⟨t, second⟩ := onto 0 positive later
    obtain ⟨s, first⟩ := onto _ (wordFor_lt inside fits) t
    have no_carry : wordFor modulus n i * n % modulus / modulus = 0 :=
      Nat.div_eq_of_lt (Nat.mod_lt _ positive)
    refine ⟨s, ?_⟩
    simp only [scaled, bind, StateT.bind, first, if_pos far, second]
    rw [Nat.zero_mul, Nat.zero_div, Nat.add_zero, no_carry, high]
    rfl
  · obtain ⟨s, first⟩ := onto _ (wordFor_lt inside fits) later
    refine ⟨s, ?_⟩
    simp only [scaled, bind, StateT.bind, first, if_neg far]
    rw [high]
    rfl

end Words

namespace Endless

theorem word32_onto {w : Nat} (short : w < UInt32.size) (later : Endless) :
    ∃ e, (WordSource.word32 : StateM Endless Nat) e = (w, later) := by
  refine ⟨later.prepend (UInt64.ofNat w), Prod.ext ?_ rfl⟩
  simpa [WordSource.word32] using Nat.mod_eq_of_lt short

theorem word64_onto {w : Nat} (long : w < UInt64.size) (later : Endless) :
    ∃ e, (WordSource.word64 : StateM Endless Nat) e = (w, later) := by
  refine ⟨later.prepend (UInt64.ofNat w), Prod.ext ?_ rfl⟩
  simpa [WordSource.word64] using Nat.mod_eq_of_lt long

instance : FreeSource Endless where
  below_onto {n i} later inside fits := by
    change ∃ e, WordSource.below n e = (i, later)
    rw [WordSource.below]
    split
    · rename_i short
      exact WordSource.scaled_onto inside (Nat.le_of_lt short) (fun _ => word32_onto) later
    · exact WordSource.scaled_onto inside fits (fun _ => word64_onto) later
  unit_onto drawn later := ⟨later.prepend (drawn.word 0), rfl⟩

end Endless

namespace Draw

variable {σ : Type}

/-- The outcome can come out in front of whatever is drawn later. -/
def Possible {α : Type} (draw : StateM σ α) (x : α) : Prop := ∀ later, ∃ s, draw.run s = (x, later)

section Logic

variable {α β : Type}

theorem possible_pure (x : α) : Possible (pure x : StateM σ α) x := fun later => ⟨later, rfl⟩

variable {draw : StateM σ α} {next : α → StateM σ β} {x : α} {y : β}

/-- The same source brings about both the first outcome and the last. -/
theorem Possible.both (first : Possible draw x) (last : Possible (next x) y) (later : σ) :
    ∃ s, (draw.run s).1 = x ∧ (draw >>= next).run s = (y, later) := by
  obtain ⟨t, drawn_last⟩ := last later
  obtain ⟨s, drawn_first⟩ := first t
  refine ⟨s, congrArg Prod.fst drawn_first, ?_⟩
  rw [StateT.run_bind, drawn_first]
  exact drawn_last

theorem possible_bind (first : Possible draw x) (last : Possible (next x) y) :
    Possible (draw >>= next) y := by
  intro later
  obtain ⟨s, _, drawn⟩ := first.both last later
  exact ⟨s, drawn⟩

end Logic

variable [RandomSource σ] [FreeSource σ]

theorem possible_below {n i : Nat} (inside : i < n) (fits : n ≤ UInt64.size) :
    Possible (RandomSource.below n : StateM σ Nat) i :=
  fun later => FreeSource.below_onto later inside fits

/-- A table looks at one number of the unit interval only. -/
theorem possible_pickExcept {α : Type} (o : Odds α) (excluded : α → Bool) (s : σ) :
    Possible (o.pickExcept excluded : StateM σ (Option α)) ((o.pickExcept excluded).run s).1 := by
  unfold Odds.pickExcept
  dsimp only
  split
  · exact possible_pure _
  · exact possible_bind (FreeSource.unit_onto s) (possible_pure _)

theorem possible_pick {α : Type} [Inhabited α] (o : Odds α) (s : σ) :
    Possible (o.pick : StateM σ α) (o.pick.run s).1 :=
  possible_bind (possible_pickExcept o (fun _ => false) s) (possible_pure _)

end Draw

end VariantChess
