import VariantChess.Dimensions
import VariantChess.Motion
import VariantChess.Side

/-!
The routes that a motion opens to a piece, as lists of steps from its square. Only the size of the
board counts here; what stands on it is up to the gaits. Black's routes are White's with every step
turned the other way along the rows.
-/

namespace VariantChess

/-- The steps and their reflections from left to right, each once. -/
def reflected (steps : List Step) : List Step :=
  (steps.flatMap fun s => [s, s.flipCol]).eraseDups

/-- Every route one step longer. -/
def lengthen (steps : List Step) (routes : List Route) : List Route :=
  routes.flatMap fun route => steps.map fun s => route ++ [s]

/-- Given the routes of `length` steps, the routes of up to `more` steps more, shorter ones first, of
which those with fewer than `min` steps are left out. Without routes to lengthen there are no more. -/
def walks (steps : List Step) (min length : Nat) : Nat → List Route → List Route
  | 0, _ => []
  | _ + 1, [] => []
  | more + 1, route :: routes =>
    let longer := lengthen steps (route :: routes)
    (if min ≤ length + 1 then longer else []) ++ walks steps min (length + 1) more longer

/-- All sequences of `min` to `max` steps, but not the empty one. -/
def walkerRoutes (steps : List Step) (min max : Nat) : List Route := walks steps min 0 max [[]]

def straightRoute (s : Step) (length : Nat) : Route := List.replicate length s

/-- Each step repeated, for each of the lengths from `shortest` to `longest`. -/
def straightRoutes (steps : List Step) (shortest longest : Nat) : List Route :=
  steps.flatMap fun s => (List.range' shortest (longest + 1 - shortest)).map (straightRoute s)

def between (low high : Int) : List Int :=
  (List.range (high - low + 1).toNat).map fun (i : Nat) => low + i

/-- The eight leaps of a pair of distances: either way round, in every direction. -/
def leapsOf (m n : Int) : List Step :=
  [⟨n, m⟩, ⟨n, -m⟩, ⟨-n, m⟩, ⟨-n, -m⟩, ⟨m, n⟩, ⟨m, -n⟩, ⟨-m, n⟩, ⟨-m, -n⟩]

/-- The distances between two bounds that are not too long for the board. -/
def distances (d : Dimensions) (low high : Int) : List Int :=
  between (max low (-d.reach)) (min high d.reach)

/-- The different leaps of a span that go somewhere and fit on the board. -/
def LeapSpan.leaps (r : LeapSpan) (d : Dimensions) : List Step :=
  let all := (distances d r.mMin r.mMax).flatMap fun m =>
    (distances d r.nMin r.nMax).flatMap fun n =>
      (leapsOf m n).filter fun s => !s.isZero && d.admits s
  all.eraseDups

/-- How often a leap fits on a length of so many squares. -/
def repeatsWithin (length distance : Nat) : Nat := (length - 1) / distance

/-- How often a leap fits on the board. -/
def repeats (d : Dimensions) (leap : Step) : Nat :=
  if leap.row = 0 then repeatsWithin d.cols leap.col.natAbs
  else if leap.col = 0 then repeatsWithin d.rows leap.row.natAbs
  else min (repeatsWithin d.rows leap.row.natAbs) (repeatsWithin d.cols leap.col.natAbs)

namespace Motion

/-- White's routes. -/
def routes (d : Dimensions) : Motion → List Route
  | walker steps min max => walkerRoutes (reflected steps) min max
  | rider steps => straightRoutes (reflected steps) 1 d.reach
  | leaper span => (span.leaps d).map fun leap => [leap]
  | leaprider span => (span.leaps d).flatMap fun leap => straightRoutes [leap] 1 (repeats d leap)
  | catapult steps => straightRoutes (reflected steps) 2 d.reach
  | grasshopper steps => straightRoutes (reflected steps) 2 d.reach
  | leapfrog steps limit =>
    match reflected steps with
    | [] => []
    | seeds => (List.range' 1 (min limit (d.reach / 2))).flatMap fun hops =>
      seeds.map (straightRoute · (2 * hops))

end Motion

def Route.flipRow (route : Route) : Route := route.map Square.flipRow

/-- A motion with its routes for either side, worked out once for one board. Stored routes are taken
as they are. -/
structure Mover where
  motion : Motion
  whiteRoutes : List Route
  blackRoutes : List Route
deriving DecidableEq, Repr

namespace Mover

def make (d : Dimensions) (motion : Motion) : Mover :=
  let routes := motion.routes d
  ⟨motion, routes, routes.map Route.flipRow⟩

def routes (m : Mover) : Side → List Route
  | .white => m.whiteRoutes
  | .black => m.blackRoutes

@[simp] theorem motion_make (d : Dimensions) (motion : Motion) : (make d motion).motion = motion := rfl

@[simp] theorem routes_make_white (d : Dimensions) (motion : Motion) :
    (make d motion).routes .white = motion.routes d := rfl

@[simp] theorem routes_make_black (d : Dimensions) (motion : Motion) :
    (make d motion).routes .black = (motion.routes d).map Route.flipRow := rfl

end Mover

end VariantChess
