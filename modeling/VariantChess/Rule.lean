import VariantChess.Gait
import VariantChess.Position

/-!
Movement rules. A rule is one mover or combines at most two; combined rules do not nest. The same
pattern over bare motions is a plan, which becomes a rule once the board is known.
-/

namespace VariantChess

/-- The squares of its home row to which a piece may retreat, by their colour. -/
inductive Refuge
  | dark
  | light
  | both
deriving DecidableEq, Repr

namespace Refuge

def all : List Refuge := [dark, light, both]

def admits (r : Refuge) (s : Square) : Bool :=
  match r with
  | dark => s.isDark
  | light => !s.isDark
  | both => true

end Refuge

inductive Pattern (α : Type)
  | simple (mover : α)
  /-- Moves by `mover`, or swaps places with a friendly piece of type `partner`. -/
  | exchange (partner : Nat) (mover : α)
  /-- Moves by `mover`, or goes back to an empty square of its home row. -/
  | retreat (refuge : Refuge) (mover : α)
  /-- Goes to empty squares by `movement`, and takes by `capture`. -/
  | moveCapture (movement capture : α)
  /-- Moves by either. -/
  | combination (first second : α)
deriving DecidableEq, Repr

inductive CompoundKind
  | exchange
  | retreat
  | moveCapture
  | combination
deriving DecidableEq, Repr

inductive RuleKind
  | simple (kind : MotionKind)
  | compound (kind : CompoundKind)
deriving DecidableEq, Repr

namespace RuleKind

def isCompound : RuleKind → Bool
  | simple _ => false
  | compound _ => true

def name : RuleKind → String
  | simple .walker => "walker"
  | simple .rider => "rider"
  | simple .leaper => "leaper"
  | simple .leaprider => "leaprider"
  | simple .catapult => "catapult"
  | simple .grasshopper => "grasshopper"
  | simple .leapfrog => "leapfrog"
  | compound .exchange => "exchange"
  | compound .retreat => "retreat"
  | compound .moveCapture => "movecapture"
  | compound .combination => "combination"

end RuleKind

namespace Pattern

def map {α β : Type} (f : α → β) : Pattern α → Pattern β
  | simple m => simple (f m)
  | exchange partner m => exchange partner (f m)
  | retreat refuge m => retreat refuge (f m)
  | moveCapture m c => moveCapture (f m) (f c)
  | combination a b => combination (f a) (f b)

def parts {α : Type} : Pattern α → List α
  | simple m | exchange _ m | retreat _ m => [m]
  | moveCapture a b | combination a b => [a, b]

@[simp] theorem parts_map {α β : Type} (f : α → β) (r : Pattern α) : (r.map f).parts = r.parts.map f := by
  cases r <;> rfl

end Pattern

abbrev Plan := Pattern Motion

abbrev Rule := Pattern Mover

namespace Plan

def kind : Plan → RuleKind
  | .simple m => .simple m.kind
  | .exchange .. => .compound .exchange
  | .retreat .. => .compound .retreat
  | .moveCapture .. => .compound .moveCapture
  | .combination .. => .compound .combination

def build (d : Dimensions) (plan : Plan) : Rule := plan.map (Mover.make d)

/-- One step in any direction. -/
def king : Plan := .simple (.walker Step.canonical 1 1)

/-- One step forward to move, one step diagonally forward to take. -/
def pawn : Plan := .moveCapture (.walker [⟨1, 0⟩] 1 1) (.walker [⟨1, 1⟩] 1 1)

end Plan

namespace Rule

def plan (r : Rule) : Plan := r.map (·.motion)

def kind (r : Rule) : RuleKind := r.plan.kind

theorem plan_build (d : Dimensions) (p : Plan) : (p.build d).plan = p := by
  cases p <;> rfl

/-- The empty squares of a piece's home row that its refuge admits. -/
def havens (refuge : Refuge) (b : Board) (side : Side) : List Square :=
  ((List.range b.dims.cols).map fun (col : Nat) => (⟨side.homeRow b.dims.rows, col⟩ : Square)).filter
    fun s => b.isEmpty s && refuge.admits s

/-- The squares that a piece may go to, with repeats. Captures come before other moves where they have
a mover of their own. -/
def landings (b : Board) (p : Piece) : Rule → List Square
  | .simple m | .exchange _ m => m.destinations .either b p
  | .retreat refuge m => m.destinations .either b p ++ havens refuge b p.side
  | .moveCapture m c => c.destinations .captureOnly b p ++ m.destinations .moveOnly b p
  | .combination x y => x.destinations .either b p ++ y.destinations .either b p

/-- The squares of the friendly pieces that a piece may swap with. -/
def partners (b : Board) (p : Piece) : Rule → List Square
  | .exchange partner _ =>
    ((b.piecesOf p.side).filter fun q => q.kind == partner && q.square != p.square).map (·.square)
  | _ => []

/-- The moves of a piece, each once. -/
def moves (r : Rule) (b : Board) (p : Piece) : List Move :=
  (r.landings b p).eraseDups.map (Move.go p) ++ (r.partners b p).map (Move.swap p)

end Rule

/-- What a piece type is called, and how its pieces move. A side that can lose a royal piece is in
check. -/
structure PieceType where
  rule : Rule
  name : String
  icon : String
  royal : Bool
deriving DecidableEq, Repr

/-- The letter of the type in the notation of moves. -/
def PieceType.letter (t : PieceType) : Option Char :=
  if t.icon = "Pawn" then none
  else if t.icon = "Knight" then some 'N'
  else t.name.toList.head?.map Char.toUpper

/-- The piece types of a game, by number. -/
abbrev Roster := List PieceType

end VariantChess
