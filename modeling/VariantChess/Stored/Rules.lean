import VariantChess.Generator.Tables
import VariantChess.Stored.Positions

/-!
The stored forms of motions, rules and piece types, and the names of their kinds. A rule is stored with
the routes of its movers, a plan with bare motions in their place. A motion has at most five steps to
choose from.
-/

namespace VariantChess

namespace LeapSpan

def toDatum (r : LeapSpan) : Datum :=
  .record [("m_min", store r.mMin), ("m_max", store r.mMax), ("n_min", store r.nMin),
    ("n_max", store r.nMax)]

def ofDatum? (d : Datum) : Option LeapSpan := do
  match ← d.fields? ["m_min", "m_max", "n_min", "n_max"] with
  | [mMin, mMax, nMin, nMax] =>
    return ⟨← restore? mMin, ← restore? mMax, ← restore? nMin, ← restore? nMax⟩
  | _ => none

instance : Stored LeapSpan := ⟨toDatum, ofDatum?⟩

end LeapSpan

namespace Motion

/-- The most steps that a motion may have. -/
def maxSteps : Nat := 5

def restoreSteps? (d : Datum) : Option (List Step) :=
  (restore? d : Option (List Step)).filter (·.length ≤ maxSteps)

/-- The steps of a motion that has nothing else. -/
def restoreOnlySteps? (d : Datum) : Option (List Step) := do
  match ← d.named? ["vectors"] with
  | [steps] => restoreSteps? steps
  | _ => none

/-- The steps of a motion with one number more. -/
def restoreWithLimit? (d : Datum) : Option (List Step × Nat) := do
  match ← d.named? ["vectors", "limit"] with
  | [steps, limit] => return (← restoreSteps? steps, ← restore? limit)
  | _ => none

/-- The steps of a motion with two numbers more. -/
def restoreWithSpan? (d : Datum) : Option (List Step × Nat × Nat) := do
  match ← d.named? ["vectors", "min", "max"] with
  | [steps, min, max] => return (← restoreSteps? steps, ← restore? min, ← restore? max)
  | _ => none

def toDatum : Motion → Datum
  | walker steps min max =>
    .record [("Walker", .record [("vectors", store steps), ("min", store min), ("max", store max)])]
  | rider steps => .record [("Rider", .record [("vectors", store steps)])]
  | leaper span => .record [("Leaper", store span)]
  | leaprider span => .record [("Leaprider", store span)]
  | catapult steps => .record [("Catapult", .record [("vectors", store steps)])]
  | grasshopper steps => .record [("Grasshopper", .record [("vectors", store steps)])]
  | leapfrog steps limit =>
    .record [("Leapfrog", .record [("vectors", store steps), ("limit", store limit)])]

def ofDatum? (d : Datum) : Option Motion := do
  let (name, content) ← d.case?
  let content ← content
  match name with
  | "Walker" => (restoreWithSpan? content).map fun (steps, min, max) => walker steps min max
  | "Rider" => (restoreOnlySteps? content).map rider
  | "Leaper" => (restore? content).map leaper
  | "Leaprider" => (restore? content).map leaprider
  | "Catapult" => (restoreOnlySteps? content).map catapult
  | "Grasshopper" => (restoreOnlySteps? content).map grasshopper
  | "Leapfrog" => (restoreWithLimit? content).map fun (steps, limit) => leapfrog steps limit
  | _ => none

instance : Stored Motion := ⟨toDatum, ofDatum?⟩

end Motion

namespace Mover

def toDatum (m : Mover) : Datum :=
  .record [("motion", store m.motion), ("paths", store (m.whiteRoutes, m.blackRoutes))]

def ofDatum? (d : Datum) : Option Mover := do
  match ← d.fields? ["motion", "paths"] with
  | [motion, paths] =>
    let routes : List Route × List Route ← restore? paths
    return ⟨← restore? motion, routes.1, routes.2⟩
  | _ => none

instance : Stored Mover := ⟨toDatum, ofDatum?⟩

end Mover

namespace Refuge

def storedName : Refuge → String
  | dark => "Black"
  | light => "White"
  | both => "Both"

instance : Stored Refuge := .constants all storedName

end Refuge

namespace Pattern

variable {α : Type} [Stored α]

/-- The two parts of a compound rule, under the names of their fields. -/
def restoreParts? {β γ : Type} [Stored β] [Stored γ] (first second : String) (d : Datum) :
    Option (β × γ) := do
  match ← d.named? [first, second] with
  | [x, y] => return (← restore? x, ← restore? y)
  | _ => none

def compoundDatum (name : String) (fields : List (String × Datum)) : Datum :=
  .record [("Composite", .record [(name, .record fields)])]

def toDatum : Pattern α → Datum
  | simple m => .record [("Nestable", store m)]
  | exchange partner m => compoundDatum "Exchange" [("with", store partner), ("regular", store m)]
  | retreat refuge m => compoundDatum "Retreat" [("squares", store refuge), ("regular", store m)]
  | moveCapture m c => compoundDatum "MoveCapture" [("movement", store m), ("capture", store c)]
  | combination a b => compoundDatum "Combination" [("first", store a), ("second", store b)]

def ofCompoundDatum? (d : Datum) : Option (Pattern α) := do
  let (name, content) ← d.case?
  let content ← content
  match name with
  | "Exchange" => (restoreParts? "with" "regular" content).map fun (partner, m) => exchange partner m
  | "Retreat" => (restoreParts? "squares" "regular" content).map fun (refuge, m) => retreat refuge m
  | "MoveCapture" => (restoreParts? "movement" "capture" content).map fun (m, c) => moveCapture m c
  | "Combination" => (restoreParts? "first" "second" content).map fun (a, b) => combination a b
  | _ => none

def ofDatum? (d : Datum) : Option (Pattern α) := do
  match ← d.case? with
  | ("Nestable", some content) => (restore? content).map simple
  | ("Composite", some content) => ofCompoundDatum? content
  | _ => none

instance : Stored (Pattern α) := ⟨toDatum, ofDatum?⟩

end Pattern

/-- A plan as it may be given: in its stored form, or by name if it is the pawn's or the king's. -/
def Plan.ofDatum? : Datum → Option Plan
  | .text "king" => some king
  | .text "pawn" => some pawn
  | d => restore? d

namespace PieceType

def toDatum (t : PieceType) : Datum :=
  .record [("movement_rule", store t.rule), ("name", store t.name), ("icon", store t.icon),
    ("royal", store t.royal)]

def ofDatum? (d : Datum) : Option PieceType := do
  match ← d.fields? ["movement_rule", "name", "icon", "royal"] with
  | [rule, name, icon, royal] =>
    return ⟨← restore? rule, ← restore? name, ← restore? icon, ← restore? royal⟩
  | _ => none

instance : Stored PieceType := ⟨toDatum, ofDatum?⟩

end PieceType

namespace MotionKind

def all : List MotionKind := [walker, rider, leaper, leaprider, catapult, grasshopper, leapfrog]

def storedName : MotionKind → String
  | walker => "Walker"
  | rider => "Rider"
  | leaper => "Leaper"
  | leaprider => "Leaprider"
  | catapult => "Catapult"
  | grasshopper => "Grasshopper"
  | leapfrog => "Leapfrog"

instance : Stored MotionKind := .constants all storedName

end MotionKind

namespace CompoundKind

def all : List CompoundKind := [exchange, retreat, moveCapture, combination]

def storedName : CompoundKind → String
  | exchange => "Exchange"
  | retreat => "Retreat"
  | moveCapture => "MoveCapture"
  | combination => "Combination"

instance : Stored CompoundKind := .constants all storedName

end CompoundKind

namespace RuleKind

def toDatum : RuleKind → Datum
  | simple kind => .record [("Nestable", store kind)]
  | compound kind => .record [("Composite", store kind)]

def ofDatum? (d : Datum) : Option RuleKind := do
  match ← d.case? with
  | ("Nestable", some kind) => (restore? kind).map simple
  | ("Composite", some kind) => (restore? kind).map compound
  | _ => none

instance : Stored RuleKind := ⟨toDatum, ofDatum?⟩

end RuleKind

namespace Tier

def all : List Tier := [lowly, minor, major, queen, king]

def storedName : Tier → String
  | lowly => "Lowly"
  | minor => "Minor"
  | major => "Major"
  | queen => "Queen"
  | king => "King"

instance : Stored Tier := .constants all storedName

end Tier

namespace Intent

def all : List Intent := [either, moveOnly, captureOnly]

def storedName : Intent → String
  | either => "Regular"
  | moveOnly => "MoveOnly"
  | captureOnly => "CaptureOnly"

instance : Stored Intent := .constants all storedName

end Intent

end VariantChess
