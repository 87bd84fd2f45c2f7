import VariantChess.Capacity
import VariantChess.Motion.Routes
import VariantChess.Rule

/-!
Working out the routes of a motion in a program's arithmetic. Coordinates are signed 32-bit numbers, numbers
of hops and lengths unsigned 64-bit ones, and a table whose size is known beforehand is reserved at once.
Where a number does not fit or a table cannot be reserved there are no routes. Otherwise they are those of
`Motion.routes`.
-/

namespace VariantChess

def reflected? (steps : List Step) : Option (List Step) := do
  let pairs ← steps.mapM fun s => do return [s, ← s.flipCol?]
  return pairs.flatten.eraseDups

/-- Room for the routes along the first step is reserved when there is such a route. -/
def straightRoutes? (steps : List Step) (shortest longest : Nat) : Option (List Route) :=
  if steps.isEmpty || Capacity.holds (longest + 1 - shortest) 24 then
    some (straightRoutes steps shortest longest)
  else none

namespace LeapSpan

/-- Can every distance be taken both ways, if there is any? -/
def isReversible (r : LeapSpan) : Bool :=
  r.mMax < r.mMin || r.nMax < r.nMin || [r.mMin, r.mMax, r.nMin, r.nMax].all Square.reversible

def leaps? (r : LeapSpan) (d : Dimensions) : Option (List Step) :=
  if r.isReversible then some (r.leaps d) else none

end LeapSpan

/-- How often a leap fits on the board, which it does fewer than `times` times over at least. The loop goes
on for as long as it fits; the numbers on the way must be 32-bit ones. -/
def repeats? (d : Dimensions) (leap : Step) (times : Nat) : Option Nat :=
  if times < UInt32.size / 2 then do
    let far ← leap.scale? times
    if d.admits far then repeats? d leap (times + 1) else return times - 1
  else none
termination_by UInt32.size / 2 - times

def repeatedRoutes? (d : Dimensions) (leap : Step) : Option (List Route) :=
  (repeats? d leap 1).map (straightRoutes [leap] 1)

namespace Motion

/-- White's routes. The reach of a board that has neither rows nor columns is no number. -/
def expand? (d : Dimensions) (m : Motion) : Option (List Route) :=
  if max d.rows d.cols = 0 then none
  else match m with
  | walker steps min max => do return walkerRoutes (← reflected? steps) min max
  | rider steps => do straightRoutes? (← reflected? steps) 1 d.reach
  | leaper span => do return (← span.leaps? d).map fun leap => [leap]
  | leaprider span => do return (← (← span.leaps? d).mapM (repeatedRoutes? d)).flatten
  | catapult steps => do straightRoutes? (← reflected? steps) 2 d.reach
  | grasshopper steps => do straightRoutes? (← reflected? steps) 2 d.reach
  | leapfrog steps limit => do
    let _ ← reflected? steps
    -- twice the number of hops is counted up to the limit, on the board or not
    if 2 * limit < UInt64.size then return (leapfrog steps limit).routes d else none

end Motion

def Route.flipRow? (route : Route) : Option Route := route.mapM Square.flipRow?

namespace Mover

def make? (d : Dimensions) (motion : Motion) : Option Mover := do
  let routes ← motion.expand? d
  return ⟨motion, routes, ← routes.mapM Route.flipRow?⟩

end Mover

def Pattern.mapM? {α β : Type} (f : α → Option β) : Pattern α → Option (Pattern β)
  | simple m => do return simple (← f m)
  | exchange partner m => do return exchange partner (← f m)
  | retreat refuge m => do return retreat refuge (← f m)
  | moveCapture m c => do return moveCapture (← f m) (← f c)
  | combination a b => do return combination (← f a) (← f b)

def Plan.build? (d : Dimensions) (plan : Plan) : Option Rule := plan.mapM? (Mover.make? d)

end VariantChess
