import VariantChess.Moves

/-!
Games: the players, the piece types, and every position, move and notation so far, oldest first.
Nothing is taken back, and a position's status is worked out when it enters the game. Whoever plays a move
gets an answer, and the game as it then stands.
-/

namespace VariantChess

structure Players where
  white : String
  black : String
deriving DecidableEq, Repr

def Players.player (p : Players) : Side → String
  | .white => p.white
  | .black => p.black

inductive Result
  | whiteMates
  | blackMates
  | stalemate
deriving DecidableEq, Repr

structure Game where
  players : Players
  types : Roster
  dims : Dimensions
  positions : List Position
  moves : List Move
  notations : List String
deriving DecidableEq, Repr

/-- A position with the status that it shows. -/
def Position.settled (types : Roster) (p : Position) : Position := { p with status := p.outcome types }

namespace Game

def start (players : Players) (types : Roster) (initial : Position) : Game :=
  ⟨players, types, initial.board.dims, [initial.settled types], [], []⟩

/-- A new game needs one piece type for every type number that its board allows. -/
def make (players : Players) (types : Roster) (initial : Position) : Except Error Game :=
  if types.length = initial.board.dims.kinds then .ok (start players types initial)
  else .error (.kindCount initial.board.dims.kinds types.length)

/-- The last position, if there is any. -/
def current? (g : Game) : Option Position := g.positions.getLast?

/-- The last position of a game that has one. What it is for other games is of no account. -/
def current (g : Game) : Position := g.current?.getD (.start (.empty g.dims) .white)

theorem current?_eq_some {g : Game} (begun : g.positions ≠ []) : g.current? = some g.current := by
  rw [current, current?, List.getLast?_eq_some_getLast begun, Option.getD_some]

def currentIndex (g : Game) : Nat := g.positions.length - 1

/-- The side of a player; one who plays both is White. -/
def sideOf (g : Game) (player : String) : Option Side :=
  if g.players.white = player then some .white
  else if g.players.black = player then some .black
  else none

def result (g : Game) : Option Result :=
  match g.current.status, g.current.toMove with
  | .ongoing, _ => none
  | .stalemate, _ => some .stalemate
  | .checkmate, .white => some .blackMates
  | .checkmate, .black => some .whiteMates

def isLegalNow (g : Game) (m : Move) : Bool := g.current.isLegal g.types m

/-- The legal move of the piece on one square that ends on another. -/
def findMove (g : Game) (origin target : Square) : Option Move := do
  let piece ← g.current.board.pieceOn origin
  if piece.side = g.current.toMove then
    (g.current.legalOf g.types piece).find? (·.target == target)
  else none

/-- Does the move go to a square held by the other side? -/
def capturesFrom (before : Position) (m : Move) : Bool :=
  (before.board.pieceOn m.target).any (·.side != m.piece.side)

/-- A move in notation: the letter of the piece and what it does, with a mark for mate or check. -/
def moveText (types : Roster) (before : Position) (m : Move) (next : Position) : List Char :=
  let letter := ((types[m.piece.kind]?).bind PieceType.letter).toList
  let deed := match m.action with
    | .go target => (if capturesFrom before m then ['x'] else []) ++ target.chars
    | .swap target => m.origin.chars ++ '<' :: '>' :: target.chars
  let mark :=
    if next.status = .checkmate then ['#']
    else if next.board.inCheck types next.toMove then ['+']
    else []
  letter ++ deed ++ mark

/-- Records a move without asking whether it is legal. -/
def record (g : Game) (m : Move) : Game :=
  let next := (g.current.after m).settled g.types
  { g with
    positions := g.positions ++ [next]
    moves := g.moves ++ [m]
    notations := g.notations ++ [String.ofList (moveText g.types g.current m next)] }

/-- Plays a legal move of a game that is not over, and tells whether it was played. -/
def play (g : Game) (m : Move) : Bool × Game :=
  if g.current.status.isOver || !g.isLegalNow m then (false, g) else (true, g.record m)

/-- Plays a move for a player who saw the game at position `index`, or tells why not. -/
def send (g : Game) (player : String) (index : Nat) (m : Move) : Except Error Unit × Game :=
  match g.sideOf player with
  | none => (.error (.unknownPlayer player), g)
  | some side =>
    if g.current.status.isOver then (.error .gameOver, g)
    else if side ≠ g.current.toMove then (.error (.notYourTurn player), g)
    else if index ≠ g.currentIndex then (.error (.staleMove index g.currentIndex), g)
    else if g.isLegalNow m then (.ok (), g.record m)
    else (.error .illegalMove, g)

/-- The game after a move, if it is played. -/
def play? (g : Game) (m : Move) : Option Game :=
  match g.play m with
  | (true, next) => some next
  | (false, _) => none

/-- The game after a move for a player, if it is played. -/
def submit (g : Game) (player : String) (index : Nat) (m : Move) : Except Error Game :=
  match g.send player index m with
  | (.ok (), next) => .ok next
  | (.error e, _) => .error e

end Game

end VariantChess
