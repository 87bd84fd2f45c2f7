import VariantChess.Capacity
import VariantChess.Generator.Types
import VariantChess.Motion.Expansion
import VariantChess.Stored.Rules

/-!
Drawing piece types with every partial operation guarded. A table must have options to pick from, a
number is drawn below a positive bound, lists are read inside their bounds, a set of steps has room for
five, and the routes of a motion are worked out as soon as it is drawn. Where a guard fails there is no
answer, and the source is left where the failure found it. No sum is guarded: the bounds on what is drawn
bound the sums as well.
-/

namespace VariantChess.Guarded

variable {σ : Type}

/-- A draw in which nothing can go wrong. -/
def sure {α : Type} (draw : StateM σ α) : OptionT (StateM σ) α := OptionT.lift draw

/-- Something that is there or not, whatever is drawn. -/
def known {α : Type} (o : Option α) : OptionT (StateM σ) α := OptionT.mk (return o)

/-- Adds to a list with room for as many members as a motion has steps at most. -/
def push {α : Type} (xs : List α) (x : α) : Option (List α) :=
  if xs.length < Motion.maxSteps then some (xs ++ [x]) else none

variable [RandomSource σ]

/-- The first option stands in where the number drawn lies past the last, so it is always read. -/
def pick {α : Type} (o : Odds α) : OptionT (StateM σ) α := do
  let picked ← sure o.pick?
  let (first, _) ← known o.options.head?
  return picked.getD first

def below (n : Nat) : OptionT (StateM σ) Nat :=
  if 0 < n then sure (RandomSource.below n) else known none

def fill {α : Type} (count : Nat) : Nat → List α → List α → OptionT (StateM σ) (List α)
  | 0, drawn, _ => return drawn
  | left + 1, drawn, rest =>
    if drawn.length < count then do
      let i ← below rest.length
      let x ← known rest[i]?
      fill count left (← known (push drawn x)) (rest.eraseIdx i)
    else return drawn

def steps (counts : Odds Nat) : OptionT (StateM σ) (List Step) := do
  let count ← pick counts
  let i ← below Step.forward.length
  let forward ← known Step.forward[i]?
  let rest := Step.canonical.filter (! [forward].contains ·)
  fill count rest.length (← known (push [] forward)) rest

def walkerSteps (tier : Tier) : OptionT (StateM σ) (List Step) :=
  steps (if tier = .minor then Tables.minorStepCount else Tables.majorStepCount)

def lineSteps (tier : Tier) : OptionT (StateM σ) (List Step) :=
  if tier = .queen then return Step.canonical else walkerSteps tier

def leapSpan (min extra : Odds Int) : OptionT (StateM σ) LeapSpan := do
  let mMin ← pick min
  let mExtra ← pick extra
  let nMin ← pick min
  let nExtra ← pick extra
  return ⟨mMin, mMin + mExtra, nMin, nMin + nExtra⟩

def singleLeap (min : Odds Int) : OptionT (StateM σ) LeapSpan := do
  let m ← pick min
  let n ← pick min
  return .single m n

def walkerSpan : Tier → OptionT (StateM σ) (Nat × Nat)
  | .minor => do
    let min ← pick Tables.minorWalkerMin
    return (min, min)
  | .queen => do return (1, 1 + (← pick Tables.queenWalkerExtra))
  | _ => do
    let min ← pick Tables.majorWalkerMin
    return (min, min + (← pick Tables.majorWalkerExtra))

def motion (kind : MotionKind) (tier : Tier) : OptionT (StateM σ) Motion := do
  let tier := Draw.parameterTier kind tier
  match kind with
  | .walker =>
    let (min, max) ← walkerSpan tier
    return .walker (← walkerSteps tier) min max
  | .rider => return .rider (← lineSteps tier)
  | .leaper => match tier with
    | .minor => return .leaper (← singleLeap Tables.minorLeaperMin)
    | .queen => return .leaper (← leapSpan Tables.queenLeaperMin Tables.queenLeaperExtra)
    | _ => return .leaper (← leapSpan Tables.majorLeaperMin Tables.majorLeaperExtra)
  | .leaprider => match tier with
    | .queen => return .leaprider (← leapSpan Tables.queenLeapriderMin Tables.queenLeapriderExtra)
    | _ => return .leaprider (← singleLeap Tables.majorLeapriderMin)
  | .catapult => return .catapult (← lineSteps tier)
  | .grasshopper => return .grasshopper (← lineSteps tier)
  | .leapfrog => do
    let steps ← lineSteps tier
    return .leapfrog steps (← pick Tables.leapfrogLimit)

def nestedMotion (tier : Tier) (excluded : List RuleKind) : OptionT (StateM σ) Motion := do
  match ← sure (Draw.ruleKind tier fun k => excluded.contains k || k.isCompound) with
  | .simple kind => motion kind tier
  | .compound _ => motion .walker tier

/-- The others are listed, and one of them is read. -/
def otherKind (kinds own : Nat) : OptionT (StateM σ) Nat :=
  let others := (List.range kinds).filter (· != own)
  if others.isEmpty then return own
  else if Capacity.holds others.length 8 then do
    let i ← below others.length
    known others[i]?
  else known none

section Rules

variable (build : Motion → Option Mover)

/-- A nested motion, also with its routes. -/
def nestedMover (tier : Tier) (excluded : List RuleKind) : OptionT (StateM σ) (Motion × Mover) := do
  let m ← nestedMotion tier excluded
  return (m, ← known (build m))

def moverPair (tier : Tier) : OptionT (StateM σ) (Mover × Mover) := do
  let (first, one) ← nestedMover build tier []
  let (_, other) ← nestedMover build tier [.simple first.kind]
  return (one, other)

def compound (kind : CompoundKind) (tier : Tier) (kinds own : Nat) : OptionT (StateM σ) Rule :=
  match kind with
  | .exchange => do
    let partner ← otherKind kinds own
    return .exchange partner (← nestedMover build tier []).2
  | .retreat => do
    let refuge ← sure (RandomSource.choose Refuge.all)
    return .retreat (refuge.getD .both) (← nestedMover build tier []).2
  | .moveCapture => do
    let (movement, capture) ← moverPair build tier
    return .moveCapture movement capture
  | .combination => do
    let (first, second) ← moverPair build tier
    return .combination first second

def rule (tier : Tier) (kinds own : Nat) : OptionT (StateM σ) Rule :=
  match tier with
  | .lowly => known (Plan.pawn.mapM? build)
  | .king => known (Plan.king.mapM? build)
  | _ => do
    match ← sure (Draw.ruleKind tier fun _ => false) with
    | .simple kind => return .simple (← known (build (← motion kind tier)))
    | .compound kind => compound build kind tier kinds own

def pieceType (kinds own : Nat) (name : String) (tier : Tier) : OptionT (StateM σ) PieceType := do
  let rule ← rule build tier kinds own
  return ⟨rule, name, name, ← sure (Draw.royal tier)⟩

def pieceTypesFrom (kinds : Nat) : Nat → List (String × Tier) → OptionT (StateM σ) Roster
  | _, [] => return []
  | own, (name, tier) :: rest => do
    let t ← pieceType build kinds own name tier
    return t :: (← pieceTypesFrom kinds (own + 1) rest)

end Rules

def pieceTypes (d : Dimensions) : OptionT (StateM σ) Roster :=
  pieceTypesFrom (Mover.make? d) d.kinds 0 standardTypes

end VariantChess.Guarded
