import VariantChess.Datum

/-!
Stored forms. What is stored is restored unchanged, as long as its numbers fit: natural numbers in 64
bits and signed ones in 32. Here are the forms of the values that all others are made of.
-/

namespace VariantChess

class Stored (α : Type) where
  store : α → Datum
  restore? : Datum → Option α

export Stored (store restore?)

namespace Stored

instance : Stored Bool := ⟨.bool, Datum.bool?⟩

instance : Stored String := ⟨.text, Datum.text?⟩

instance : Stored Int := ⟨.int, Datum.int?⟩

instance : Stored Nat := ⟨fun n => .int n, Datum.nat?⟩

variable {α β : Type} [Stored α] [Stored β]

def storeList (xs : List α) : Datum := .list (xs.map store)

def restoreList? (d : Datum) : Option (List α) := d.list?.bind (·.mapM restore?)

instance : Stored (List α) := ⟨storeList, restoreList?⟩

/-- A missing value is stored as null. -/
def storeOption : Option α → Datum
  | none => .null
  | some x => store x

def restoreOption? : Datum → Option (Option α)
  | .null => some none
  | d => (restore? d).map some

instance : Stored (Option α) := ⟨storeOption, restoreOption?⟩

/-- A pair is stored as a list of two. -/
def storePair (p : α × β) : Datum := .list [store p.1, store p.2]

def restorePair? : Datum → Option (α × β)
  | .list [x, y] => do return (← restore? x, ← restore? y)
  | _ => none

instance : Stored (α × β) := ⟨storePair, restorePair?⟩

/-- The form of an enumeration: the names of its cases. -/
@[reducible] def constants {α : Type} (cases : List α) (name : α → String) : Stored α :=
  ⟨fun x => .text (name x), Datum.constant? cases name⟩

end Stored

end VariantChess
