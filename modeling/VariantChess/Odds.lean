import VariantChess.Error
import VariantChess.Random.Source

/-!
Weighted tables. An option is picked by one number of the unit interval: the first option at which the
running sum of the weights passes it. The weights should add up to 1. If they fall short and the
number lies past the last option, the first option is taken.
-/

namespace VariantChess

structure Odds (α : Type) where
  name : String
  options : List (α × Float)

namespace Odds

variable {α : Type}

/-- The sum of weights, from left to right. That of no weights is negative zero. -/
def total (weights : List Float) : Float := weights.foldl (· + ·) (-0.0)

def sum (o : Odds α) : Float := total (o.options.map (·.2))

/-- How far the weights may be from adding up to 1. -/
def tolerance : Float := 1e-4

def check (o : Odds α) : Except Error Unit :=
  if (o.sum - 1.0).abs ≥ tolerance then .error (.unbalancedOdds o.name o.sum) else .ok ()

def contains [BEq α] (o : Odds α) (x : α) : Bool := o.options.any (·.1 == x)

/-- The first option at which the running sum passes the target. -/
def pass? (target running : Float) : List (α × Float) → Option α
  | [] => none
  | (x, weight) :: rest =>
    if target < running + weight then some x else pass? target (running + weight) rest

theorem mem_of_pass? {target running : Float} {options : List (α × Float)} {x : α}
    (h : pass? target running options = some x) : x ∈ options.map (·.1) := by
  induction options generalizing running with
  | nil => simp [pass?] at h
  | cons entry rest ih =>
    obtain ⟨y, weight⟩ := entry
    rw [pass?] at h
    split at h
    · simp_all
    · exact List.mem_cons_of_mem _ (ih h)

variable {σ : Type} [RandomSource σ]

/-- Picks among the options that are not excluded, in the proportions of their weights. If all are
excluded, nothing is drawn. -/
def pickExcept (o : Odds α) (excluded : α → Bool) : StateM σ (Option α) :=
  let allowed := o.options.filter (!excluded ·.1)
  match allowed with
  | [] => return none
  | (first, _) :: _ => do
    let x ← RandomSource.unit
    let target := if allowed.length < o.options.length then x * total (allowed.map (·.2)) else x
    return some ((pass? target 0.0 allowed).getD first)

def pick? (o : Odds α) : StateM σ (Option α) := o.pickExcept fun _ => false

/-- Picks from a table that has options. -/
def pick [Inhabited α] (o : Odds α) : StateM σ α := do
  return (← o.pick?).getD default

end Odds

end VariantChess
