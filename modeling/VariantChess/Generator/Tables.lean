import VariantChess.Odds
import VariantChess.Rule

/-!
The tables from which piece types are drawn. A piece type has a tier; each tier draws its kind of rule
from a table of its own, and the tables of the other parameters serve several tiers.
-/

namespace VariantChess

inductive Tier
  | lowly
  | minor
  | major
  | queen
  | king
deriving DecidableEq, Repr

namespace Tables

def lowlyKinds : Odds RuleKind := ⟨"lowly movement type", [(.compound .moveCapture, 1.0)]⟩

def minorKinds : Odds RuleKind := ⟨"minor movement type",
  [(.simple .walker, 0.1), (.simple .rider, 0.3), (.simple .leaper, 0.3),
    (.compound .exchange, 0.05), (.compound .retreat, 0.05), (.compound .moveCapture, 0.15),
    (.compound .combination, 0.05)]⟩

def majorKinds : Odds RuleKind := ⟨"major movement type",
  [(.simple .walker, 0.1), (.simple .rider, 0.2), (.simple .leaper, 0.15),
    (.simple .leaprider, 0.05), (.compound .exchange, 0.05), (.compound .retreat, 0.05),
    (.simple .catapult, 0.05), (.simple .grasshopper, 0.05), (.simple .leapfrog, 0.1),
    (.compound .moveCapture, 0.15), (.compound .combination, 0.05)]⟩

def queenKinds : Odds RuleKind := ⟨"queen movement type",
  [(.simple .walker, 0.25), (.simple .rider, 0.3), (.simple .leaper, 0.2),
    (.simple .leaprider, 0.1), (.compound .exchange, 0.05), (.simple .catapult, 0.03),
    (.simple .grasshopper, 0.03), (.simple .leapfrog, 0.04)]⟩

def kingKinds : Odds RuleKind := ⟨"king movement type", [(.simple .walker, 1.0)]⟩

def minorStepCount : Odds Nat := ⟨"minor number of vectors", [(2, 0.1), (3, 0.5), (4, 0.3), (5, 0.1)]⟩

def majorStepCount : Odds Nat := ⟨"major number of vectors", [(3, 0.2), (4, 0.4), (5, 0.4)]⟩

def minorWalkerMin : Odds Nat := ⟨"minor walker min", [(1, 0.8), (2, 0.2)]⟩

def majorWalkerMin : Odds Nat := ⟨"major walker min", [(1, 0.7), (2, 0.3)]⟩

def majorWalkerExtra : Odds Nat := ⟨"major walker max", [(0, 0.5), (1, 0.5)]⟩

def queenWalkerExtra : Odds Nat := ⟨"queen walker max", [(0, 0.3), (1, 0.4), (2, 0.3)]⟩

def minorLeaperMin : Odds Int := ⟨"minor leaper min", [(1, 0.3), (2, 0.5), (3, 0.2)]⟩

def majorLeaperMin : Odds Int := ⟨"major leaper min", [(1, 0.3), (2, 0.4), (3, 0.3)]⟩

def majorLeaperExtra : Odds Int := ⟨"major leaper max", [(0, 0.4), (1, 0.4), (2, 0.2)]⟩

def queenLeaperMin : Odds Int := ⟨"queen leaper min", [(0, 0.5), (1, 0.5)]⟩

def queenLeaperExtra : Odds Int := ⟨"queen leaper max", [(1, 0.3), (2, 0.4), (3, 0.3)]⟩

def majorLeapriderMin : Odds Int := ⟨"major leaprider min", [(1, 0.3), (2, 0.4), (3, 0.3)]⟩

def queenLeapriderMin : Odds Int := ⟨"queen leaprider min", [(1, 0.5), (2, 0.5)]⟩

def queenLeapriderExtra : Odds Int := ⟨"queen leaprider max", [(0, 0.3), (1, 0.4), (2, 0.3)]⟩

def leapfrogLimit : Odds Nat := ⟨"leapfrog limit", [(1, 0.05), (2, 0.25), (3, 0.65), (4, 0.05)]⟩

end Tables

def Tier.kinds : Tier → Odds RuleKind
  | lowly => Tables.lowlyKinds
  | minor => Tables.minorKinds
  | major => Tables.majorKinds
  | queen => Tables.queenKinds
  | king => Tables.kingKinds

end VariantChess
