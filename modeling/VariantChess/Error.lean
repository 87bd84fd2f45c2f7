import VariantChess.Decimal.Shortest
import VariantChess.Square

/-!
What can go wrong, by cause, and the wording of each cause. A refusal names the value at fault.
-/

namespace VariantChess

inductive Error
  /-- The dimensions cannot hold a game. -/
  | dimensions (rows cols kinds : Nat)
  | unreadableSquare (text : String)
  | offBoard (square : Square)
  /-- A stored board has the wrong number of squares. -/
  | squareCount (expected found : Nat)
  /-- A stored piece names another square than the one that holds it. -/
  | misplacedPiece (square claimed : Square)
  | unreadableLayout (text : String)
  | unknownKind (kind : Nat)
  /-- A game's piece types do not match the number its board allows. -/
  | kindCount (expected found : Nat)
  /-- There is no starting position for boards of this width. -/
  | noStartingPosition (cols : Nat)
  /-- The weights of a table do not add up to 1. -/
  | unbalancedOdds (table : String) (sum : Float)
  | gameOver
  | unknownPlayer (player : String)
  | notYourTurn (player : String)
  /-- A move was made for another position than the current one. -/
  | staleMove (submitted current : Nat)
  | illegalMove
deriving Repr

namespace Error

def message : Error → String
  | dimensions rows cols kinds =>
    s!"Invalid board info: {rows} rows, {cols} columns, {kinds} piece types"
  | unreadableSquare text => s!"Invalid location: {text}"
  | offBoard square => s!"Location {square.text} is out of bounds"
  | squareCount expected found => s!"Expected {expected} squares, but the board has {found}"
  | misplacedPiece square claimed =>
    s!"The piece on {square.text} claims to be on {claimed.text}"
  | unreadableLayout text => s!"Invalid layout: {text}"
  | unknownKind kind => s!"Unknown piece type index {kind}"
  | kindCount expected found => s!"Expected {expected} piece types, but {found} were given"
  | noStartingPosition cols => s!"No starting layout for a board with {cols} columns"
  | unbalancedOdds table sum => s!"The {table} table adds up to {Decimal.ofFloat sum}, not 1"
  | gameOver => "The game is already over"
  | unknownPlayer player => s!"{player} is not playing this game"
  | notYourTurn player => s!"It is not {player}'s turn to move"
  | staleMove submitted current =>
    s!"Move submitted for state {submitted}, but the current state is {current}"
  | illegalMove => "The move is not legal"

end Error

/-- The square that a text names. -/
def Square.parse (text : String) : Except Error Square :=
  match Square.read? text.toList with
  | some square => .ok square
  | none => .error (.unreadableSquare text)

end VariantChess
