import VariantChess.Decimal.Natural

/-!
Floating-point numbers as decimal text. A number is written with the fewest digits that read back
as the same number: of all multiples of the coarsest power of ten that has one in the rounding
interval, the one nearest to the number, the upper one on a tie. The point is always written in
place, never an exponent, and a whole number has no fraction part.
-/

namespace VariantChess.Decimal

/-- The numbers that round to one positive float: `low`, the float itself and `high`, all counted in
units of two to the power `exponent`. The ends belong to it if it is `closed`. -/
structure RoundingInterval where
  low : Nat
  mid : Nat
  high : Nat
  exponent : Int
  closed : Bool
deriving DecidableEq, Repr

namespace RoundingInterval

/-- The nearest multiple of ten to the power `place` in the interval, as a multiplier. -/
def multiple? (r : RoundingInterval) (place : Int) : Option Nat :=
  let scaled (x : Nat) := x * Nat.pow 2 r.exponent.toNat * Nat.pow 10 (-place).toNat
  let unit := Nat.pow 2 (-r.exponent).toNat * Nat.pow 10 place.toNat
  let inside (n : Nat) :=
    if r.closed then scaled r.low ≤ n * unit && n * unit ≤ scaled r.high
    else scaled r.low < n * unit && n * unit < scaled r.high
  let below := scaled r.mid / unit
  if inside below && inside (below + 1) then
    if scaled r.mid - below * unit < (below + 1) * unit - scaled r.mid then some below
    else some (below + 1)
  else if inside below then some below
  else if inside (below + 1) then some (below + 1)
  else none

/-- The largest power of ten tried; every finite double is below it. -/
def topPlace : Nat := 309

/-- The multiplier and the power of ten of the shortest decimal in the interval. Places go down to
-343, where seventeen digits of the smallest double are reached. -/
def shortest? (r : RoundingInterval) : Option (Nat × Int) :=
  (List.range 653).findSome? fun (down : Nat) =>
    let place : Int := topPlace - down
    (r.multiple? place).map (·, place)

end RoundingInterval

/-- The digits of `n`, moved by `place` powers of ten. -/
def positional (n : Nat) (place : Int) : List Char :=
  let digits := ofNat n
  if 0 ≤ place then digits ++ List.replicate place.toNat '0'
  else
    let shift := (-place).toNat
    if shift < digits.length then
      digits.take (digits.length - shift) ++ '.' :: digits.drop (digits.length - shift)
    else '0' :: '.' :: List.replicate (shift - digits.length) '0' ++ digits

/-- The rounding interval of the positive double with biased exponent `e` and fraction bits `f`. The
gap below a power of two is half the gap above it. -/
def intervalOfBits (e f : Nat) : RoundingInterval :=
  let m := if e = 0 then f else f + Nat.pow 2 52
  let q : Int := if e = 0 then -1074 else e - 1075
  let low := if f = 0 && 1 < e then 4 * m - 1 else 4 * m - 2
  ⟨low, 4 * m, 4 * m + 2, q - 2, m % 2 == 0⟩

def floatChars (x : Float) : List Char :=
  let bits := x.toBits.toNat
  let e := bits / Nat.pow 2 52 % Nat.pow 2 11
  let f := bits % Nat.pow 2 52
  let sign := if bits / Nat.pow 2 63 = 1 then ['-'] else []
  if e = 2047 then if f = 0 then sign ++ ['i', 'n', 'f'] else ['N', 'a', 'N']
  else if e = 0 && f = 0 then sign ++ ['0']
  else match (intervalOfBits e f).shortest? with
    | some (n, place) => sign ++ positional n place
    | none => []

def ofFloat (x : Float) : String := String.ofList (floatChars x)

end VariantChess.Decimal
