/-!
Plain data, the form in which values are stored and exchanged: numbers, texts, lists and records with
named fields. A number is whole, or a floating-point number that no stored value uses. A structure is
read from a record, whose other fields are ignored, or from the list of its fields in order; a case of
an enumeration is read from its name, or from a record with that name as its one field. What a case has
in named fields is read from a record only.
-/

namespace VariantChess

inductive Datum
  | null
  | bool (value : Bool)
  | int (value : Int)
  | real (value : Float)
  | text (value : String)
  | list (items : List Datum)
  | record (fields : List (String × Datum))
deriving Inhabited

namespace Datum

def field? (d : Datum) (name : String) : Option Datum :=
  match d with
  | record fields => (fields.find? (·.1 == name)).map (·.2)
  | _ => none

/-- The named fields of a record, in the order of the names. -/
def named? (names : List String) (d : Datum) : Option (List Datum) := names.mapM d.field?

/-- The fields of a structure, in the order of their names. -/
def fields? (names : List String) : Datum → Option (List Datum)
  | list items => if items.length = names.length then some items else none
  | d => d.named? names

/-- The name of a case and what it holds, if anything. -/
def case? : Datum → Option (String × Option Datum)
  | text name => some (name, none)
  | record [(name, content)] => some (name, some content)
  | _ => none

/-- One of the cases that hold nothing. -/
def constant? {α : Type} (cases : List α) (name : α → String) (d : Datum) : Option α :=
  match d.case? with
  | some (s, none) | some (s, some null) => cases.find? (name · == s)
  | _ => none

def bool? : Datum → Option Bool
  | bool b => some b
  | _ => none

def text? : Datum → Option String
  | text s => some s
  | _ => none

def list? : Datum → Option (List Datum)
  | list items => some items
  | _ => none

/-- A whole number that fits in 32 bits. -/
def int? : Datum → Option Int
  | int n => if Int32.minValue.toInt ≤ n ∧ n ≤ Int32.maxValue.toInt then some n else none
  | _ => none

/-- A natural number that fits in 64 bits. -/
def nat? : Datum → Option Nat
  | int n => if 0 ≤ n ∧ n < UInt64.size then some n.toNat else none
  | _ => none

end Datum

end VariantChess
