import VariantChess.Generator.Plans

/-!
The six standard piece types. Drawn types keep the names of the orthodox ones, but only the pawn and
the king keep their moves; the king is always royal and the queen sometimes.
-/

namespace VariantChess

/-- The names and tiers of the standard piece types, by number. -/
def standardTypes : List (String × Tier) :=
  [("Pawn", .lowly), ("Rook", .major), ("Knight", .minor), ("Bishop", .minor), ("Queen", .queen),
    ("King", .king)]

namespace Draw

variable {σ : Type} [RandomSource σ]

def royalQueenChance : Float := 0.3

def royal : Tier → StateM σ Bool
  | .king => return true
  | .queen => do return (← RandomSource.unit) ≥ 1.0 - royalQueenChance
  | _ => return false

/-- The rule is drawn first, then whether the type is royal. -/
def pieceType (d : Dimensions) (own : Nat) (name : String) (tier : Tier) : StateM σ PieceType := do
  let plan ← plan tier d.kinds own
  return ⟨plan.build d, name, name, ← royal tier⟩

def pieceTypesFrom (d : Dimensions) : Nat → List (String × Tier) → StateM σ Roster
  | _, [] => return []
  | own, (name, tier) :: rest => do
    let t ← pieceType d own name tier
    return t :: (← pieceTypesFrom d (own + 1) rest)

def pieceTypes (d : Dimensions) : StateM σ Roster := pieceTypesFrom d 0 standardTypes

end Draw

/-- The orthodox chess pieces, without castling, double steps, en passant and promotion. -/
def orthodoxTypes (d : Dimensions) : Roster :=
  let type (plan : Plan) (name : String) (royal : Bool) : PieceType := ⟨plan.build d, name, name, royal⟩
  [type .pawn "Pawn" false,
    type (.simple (.rider [⟨1, 0⟩, ⟨0, 1⟩, ⟨-1, 0⟩])) "Rook" false,
    type (.simple (.leaper (.single 1 2))) "Knight" false,
    type (.simple (.rider [⟨1, 1⟩, ⟨-1, 1⟩])) "Bishop" false,
    type (.simple (.rider Step.canonical)) "Queen" false,
    type .king "King" true]

end VariantChess
