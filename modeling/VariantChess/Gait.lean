import VariantChess.Board
import VariantChess.Motion.Routes

/-!
Gaits, the ways of walking a route over an occupied board. At every step a gait looks at the footing
and at what it remembers of the steps before, and gives a verdict; a route leads to its last square
if the walk may pass through all squares before it and may end there.
-/

namespace VariantChess

/-- What a piece may do at its destination: go to an empty square, take an enemy, or either. -/
inductive Intent
  | either
  | moveOnly
  | captureOnly
deriving DecidableEq, Repr

namespace Intent

def mayMove (i : Intent) : Bool := i != captureOnly

def mayCapture (i : Intent) : Bool := i != moveOnly

end Intent

inductive Verdict
  /-- The walk may end here or go on. -/
  | pass
  /-- The walk may end here but not go on. -/
  | land
  /-- The walk may not come here. -/
  | block
  /-- The walk may go on but not end here. -/
  | hop
deriving DecidableEq, Repr

namespace Verdict

def mayEnd : Verdict → Bool
  | pass | land => true
  | block | hop => false

def mayGoOn : Verdict → Bool
  | pass | hop => true
  | land | block => false

end Verdict

def Intent.onEmpty (i : Intent) : Verdict := if i.mayMove then .pass else .hop

structure Gait where
  Memory : Type
  start : Memory
  judge : Intent → Footing → Memory → Verdict × Memory

namespace Gait

/-- Slides over empty squares, up to and including the first enemy. -/
def slideVerdict (i : Intent) : Footing → Verdict
  | .empty => i.onEmpty
  | .friend => .block
  | .enemy => if i.mayCapture then .land else .block

/-- Leaps over everything, and may land wherever there is no friend. -/
def leapVerdict (i : Intent) : Footing → Verdict
  | .empty => i.onEmpty
  | .friend => .hop
  | .enemy => if i.mayCapture then .pass else .hop

/-- Ends the walk here, if the footing allows it. -/
def landVerdict (i : Intent) : Footing → Verdict
  | .empty => if i.mayMove then .land else .block
  | .friend => .block
  | .enemy => if i.mayCapture then .land else .block

def slide : Gait where
  Memory := Unit
  start := ()
  judge i f _ := (slideVerdict i f, ())

def leap : Gait where
  Memory := Unit
  start := ()
  judge i f _ := (leapVerdict i f, ())

/-- Remembers whether it has been launched. The first square must be occupied; from there it slides. -/
def catapult : Gait where
  Memory := Bool
  start := false
  judge i f launched :=
    if launched then (slideVerdict i f, true)
    else if f = .empty then (.block, false)
    else (.hop, true)

/-- Remembers whether the square before was the first occupied one, behind which it must land. -/
def grasshopper : Gait where
  Memory := Bool
  start := false
  judge i f hopped := if hopped then (landVerdict i f, true) else (.hop, f != .empty)

/-- Remembers the number of steps taken. Every other square must be occupied, and from the squares
between it may hop on while they are empty. -/
def leapfrog : Gait where
  Memory := Nat
  start := 0
  judge i f taken :=
    if taken % 2 = 0 then (if f = .empty then .block else .hop, taken + 1)
    else (slideVerdict i f, taken + 1)

/-- Walks a route from a square, with something remembered already. The empty route leads nowhere. -/
def follow (g : Gait) (i : Intent) (b : Board) (side : Side) : g.Memory → Square → Route → Option Square
  | _, _, [] => none
  | memory, s, step :: rest =>
    let next := s + step
    if b.contains next then
      let (verdict, memory) := g.judge i (b.footing side next) memory
      if rest.isEmpty then if verdict.mayEnd then some next else none
      else if verdict.mayGoOn then follow g i b side memory next rest
      else none
    else none

/-- Where a route takes a piece. -/
def landing? (g : Gait) (i : Intent) (b : Board) (p : Piece) (route : Route) : Option Square :=
  g.follow i b p.side g.start p.square route

/-- Every square of a route with the verdict on it and what is remembered after it, also beyond a
square that ends the walk. -/
def trace (g : Gait) (i : Intent) (b : Board) (side : Side) :
    g.Memory → Square → Route → List (Square × Verdict × g.Memory)
  | _, _, [] => []
  | memory, s, step :: rest =>
    let next := s + step
    let (verdict, memory) := g.judge i (b.footing side next) memory
    (next, verdict, memory) :: trace g i b side memory next rest

end Gait

def Motion.gait : Motion → Gait
  | walker .. | rider _ => .slide
  | leaper _ | leaprider _ => .leap
  | catapult _ => .catapult
  | grasshopper _ => .grasshopper
  | leapfrog .. => .leapfrog

/-- The squares that the routes of a piece lead to, in the order of the routes, with repeats. -/
def Mover.destinations (m : Mover) (i : Intent) (b : Board) (p : Piece) : List Square :=
  (m.routes p.side).filterMap (m.motion.gait.landing? i b p)

end VariantChess
