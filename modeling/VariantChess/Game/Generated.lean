import VariantChess.Game
import VariantChess.Generator.Types
import VariantChess.Opening

/-!
Games with drawn piece types: the players are assigned to the sides at random, then the piece types
are drawn, and the game starts from the starting position with White to move.
-/

namespace VariantChess.Game

variable {σ : Type} [RandomSource σ]

/-- Draws the players' sides and the piece types for a game from the given board. -/
def generateFrom (board : Board) (player1 player2 : String) : StateM σ Game := do
  let (white, black) ← RandomSource.shufflePair player1 player2
  let types ← Draw.pieceTypes board.dims
  return start ⟨white, black⟩ types (.start board .white)

def generate (player1 player2 : String) : StateM σ Game :=
  generateFrom Opening.standardBoard player1 player2

/-- Can a game be generated on a board of these dimensions? -/
def checkDimensions (d : Dimensions) : Except Error Unit :=
  if d.kinds ≠ standardTypes.length then .error (.kindCount standardTypes.length d.kinds)
  else Opening.check d

/-- Nothing is drawn for a board without a starting position. -/
def generateOn (d : Dimensions) (player1 player2 : String) : StateM σ (Except Error Game) :=
  match checkDimensions d with
  | .error e => return .error e
  | .ok () => do return .ok (← generateFrom (Opening.boardOf d) player1 player2)

end VariantChess.Game
