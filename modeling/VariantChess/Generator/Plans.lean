import VariantChess.Generator.Tables

/-!
Drawing movement rules. Lowly pieces are always pawns and kings always step once in any direction; the
other tiers draw a kind of rule and then its parameters. The two movers of a compound rule are of
different kinds, and none of them is compound itself.
-/

namespace VariantChess

namespace Draw

variable {σ : Type} [RandomSource σ]

/-- Moves members of a list to the end of another, each drawn from those still there, until the other
has `count` members. The first argument is the number of members left to draw from. -/
def fill {α : Type} (count : Nat) : Nat → List α → List α → StateM σ (List α)
  | 0, drawn, _ => return drawn
  | left + 1, drawn, rest =>
    if drawn.length < count then do
      let i ← RandomSource.below rest.length
      fill count left (drawn ++ (rest[i]?).toList) (rest.eraseIdx i)
    else return drawn

/-- A set of canonical steps, of which the first leads forward. -/
def steps (counts : Odds Nat) : StateM σ (List Step) := do
  let count ← counts.pick
  let forward := Step.forward[← RandomSource.below Step.forward.length]?.toList
  let rest := Step.canonical.filter (!forward.contains ·)
  fill count rest.length forward rest

/-- Walkers draw their steps at every tier. -/
def walkerSteps (tier : Tier) : StateM σ (List Step) :=
  steps (if tier = .minor then Tables.minorStepCount else Tables.majorStepCount)

/-- Queens ride, hop and leapfrog in every direction. -/
def lineSteps (tier : Tier) : StateM σ (List Step) :=
  if tier = .queen then return Step.canonical else walkerSteps tier

def leapSpan (min extra : Odds Int) : StateM σ LeapSpan := do
  let mMin ← min.pick
  let mExtra ← extra.pick
  let nMin ← min.pick
  let nExtra ← extra.pick
  return ⟨mMin, mMin + mExtra, nMin, nMin + nExtra⟩

def singleLeap (min : Odds Int) : StateM σ LeapSpan := do
  let m ← min.pick
  let n ← min.pick
  return .single m n

def walkerSpan : Tier → StateM σ (Nat × Nat)
  | .minor => do
    let min ← Tables.minorWalkerMin.pick
    return (min, min)
  | .queen => do return (1, 1 + (← Tables.queenWalkerExtra.pick))
  | _ => do
    let min ← Tables.majorWalkerMin.pick
    return (min, min + (← Tables.majorWalkerExtra.pick))

/-- The tier whose tables give the parameters of a motion: that of the piece if it draws such motions
at all, and major otherwise. -/
def parameterTier (kind : MotionKind) (tier : Tier) : Tier :=
  if tier.kinds.contains (.simple kind) && tier != .king then tier else .major

def motion (kind : MotionKind) (tier : Tier) : StateM σ Motion := do
  let tier := parameterTier kind tier
  match kind with
  | .walker =>
    let (min, max) ← walkerSpan tier
    return .walker (← walkerSteps tier) min max
  | .rider => return .rider (← lineSteps tier)
  | .leaper => match tier with
    | .minor => return .leaper (← singleLeap Tables.minorLeaperMin)
    | .queen => return .leaper (← leapSpan Tables.queenLeaperMin Tables.queenLeaperExtra)
    | _ => return .leaper (← leapSpan Tables.majorLeaperMin Tables.majorLeaperExtra)
  | .leaprider => match tier with
    | .queen => return .leaprider (← leapSpan Tables.queenLeapriderMin Tables.queenLeapriderExtra)
    | _ => return .leaprider (← singleLeap Tables.majorLeapriderMin)
  | .catapult => return .catapult (← lineSteps tier)
  | .grasshopper => return .grasshopper (← lineSteps tier)
  | .leapfrog => do
    let steps ← lineSteps tier
    return .leapfrog steps (← Tables.leapfrogLimit.pick)

/-- A kind of rule from the table of a tier; a walker if the table has none that is not excluded. -/
def ruleKind (tier : Tier) (excluded : RuleKind → Bool) : StateM σ RuleKind := do
  return (← tier.kinds.pickExcept excluded).getD (.simple .walker)

/-- A motion of a kind that is not excluded, for use inside a compound rule. -/
def nestedMotion (tier : Tier) (excluded : List RuleKind) : StateM σ Motion := do
  match ← ruleKind tier fun k => excluded.contains k || k.isCompound with
  | .simple kind => motion kind tier
  | .compound _ => motion .walker tier

/-- Two motions of different kinds. -/
def motionPair (tier : Tier) : StateM σ (Motion × Motion) := do
  let first ← nestedMotion tier []
  let second ← nestedMotion tier [.simple first.kind]
  return (first, second)

/-- The number of one of `kinds` piece types other than `own`, or `own` if there is no other. The types
after `own` move up by one to fill its place while the number is drawn. -/
def otherKind (kinds own : Nat) : StateM σ Nat :=
  let others := if own < kinds then kinds - 1 else kinds
  if others = 0 then return own
  else do
    let i ← RandomSource.below others
    return if own ≤ i then i + 1 else i

/-- A compound rule for piece type `own` of `kinds`. It exchanges with another type, if there is one. -/
def compound (kind : CompoundKind) (tier : Tier) (kinds own : Nat) : StateM σ Plan :=
  match kind with
  | .exchange => do
    let partner ← otherKind kinds own
    return .exchange partner (← nestedMotion tier [])
  | .retreat => do
    let refuge ← RandomSource.choose Refuge.all
    return .retreat (refuge.getD .both) (← nestedMotion tier [])
  | .moveCapture => do
    let (movement, capture) ← motionPair tier
    return .moveCapture movement capture
  | .combination => do
    let (first, second) ← motionPair tier
    return .combination first second

/-- The rule of piece type `own` of `kinds`. -/
def plan (tier : Tier) (kinds own : Nat) : StateM σ Plan :=
  match tier with
  | .lowly => return Plan.pawn
  | .king => return Plan.king
  | _ => do
    match ← ruleKind tier fun _ => false with
    | .simple kind => return .simple (← motion kind tier)
    | .compound kind => compound kind tier kinds own

end Draw

end VariantChess
