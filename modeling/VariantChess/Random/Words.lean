import VariantChess.Random.Source

/-!
Random numbers from words. A source of words yields 32-bit and 64-bit words, and everything else is
drawn through those two. A number below `n` is the high part of a word times `n`, corrected by at most
one further word, so it is always below `n` but two words may be drawn for it. From an endless sequence
of words every number can be drawn, since any word may stand in front of it.
-/

namespace VariantChess

class WordSource (σ : Type) where
  next32 : σ → UInt32 × σ
  next64 : σ → UInt64 × σ

namespace WordSource

variable {σ : Type}

/-- Scales words of a modulus down to numbers below `n`. The second word decides whether the part cut
off by the first would have carried. -/
def scaled (modulus n : Nat) (word : StateM σ Nat) : StateM σ Nat := do
  let product := (← word) * n
  let high := product / modulus
  let low := product % modulus
  if modulus - n < low then
    let carry := (low + (← word) * n / modulus) / modulus
    return high + carry
  else return high

theorem scaled_lt {modulus n : Nat} (positive : 0 < n) (fits : n ≤ modulus) {word : StateM σ Nat}
    (bounded : ∀ s, (word s).1 < modulus) (s : σ) : ((scaled modulus n word) s).1 < n := by
  have first := bounded s
  simp only [scaled, bind, StateT.bind]
  generalize word s = drawn at first ⊢
  obtain ⟨w, t⟩ := drawn
  change w < modulus at first
  have room : w * n + n ≤ modulus * n := by
    rw [← Nat.succ_mul]
    exact Nat.mul_le_mul_right n first
  have split : modulus * (w * n / modulus) + w * n % modulus = w * n := Nat.div_add_mod _ _
  have high : w * n / modulus < n := Nat.div_lt_of_lt_mul (by omega)
  by_cases far : modulus - n < w * n % modulus
  · have second := bounded t
    simp only [if_pos far, StateT.bind, bind]
    generalize word t = drawn at second ⊢
    obtain ⟨v, u⟩ := drawn
    change v < modulus at second
    have next : w * n / modulus + 1 < n := by
      refine Nat.lt_of_mul_lt_mul_left (a := modulus) ?_
      rw [Nat.mul_add, Nat.mul_one]
      omega
    have more : v * n / modulus < n :=
      Nat.div_lt_of_lt_mul (Nat.mul_lt_mul_of_pos_right second positive)
    have low : w * n % modulus < modulus := Nat.mod_lt _ (by omega)
    have carry : (w * n % modulus + v * n / modulus) / modulus < 2 :=
      Nat.div_lt_of_lt_mul (by omega)
    change w * n / modulus + (w * n % modulus + v * n / modulus) / modulus < n
    omega
  · simp only [if_neg far]
    exact high

variable [WordSource σ]

def word32 : StateM σ Nat := fun s => ((next32 s).1.toNat, (next32 s).2)

def word64 : StateM σ Nat := fun s => ((next64 s).1.toNat, (next64 s).2)

/-- The upper 53 bits of a word. -/
def unit : StateM σ Float := fun s =>
  let (w, s) := next64 s
  ((w >>> 11).toFloat / 9007199254740992.0, s)

/-- Short words are used for bounds that fit in one. -/
def below (n : Nat) : StateM σ Nat :=
  if n < UInt32.size then scaled UInt32.size n word32 else scaled UInt64.size n word64

theorem below_lt {n : Nat} (positive : 0 < n) (fits : n ≤ UInt64.size) (s : σ) :
    ((below n : StateM σ Nat) s).1 < n := by
  rw [below]
  split
  · rename_i short
    exact scaled_lt positive (Nat.le_of_lt short) (fun _ => UInt32.toNat_lt _) s
  · exact scaled_lt positive fits (fun _ => UInt64.toNat_lt _) s

/-- From the empty list nothing is drawn. -/
def choose {α : Type} (xs : List α) : StateM σ (Option α) :=
  if xs.isEmpty then return none else do return xs[← below xs.length]?

theorem choose_mem {α : Type} {xs : List α} (inhabited : xs ≠ []) (fits : xs.length ≤ UInt64.size)
    (s : σ) : ∃ x ∈ xs, ((choose xs).run s).1 = some x := by
  have inside := below_lt (List.length_pos_iff.2 inhabited) fits s
  refine ⟨_, List.getElem_mem inside, ?_⟩
  rw [choose, if_neg (by simpa using inhabited)]
  exact List.getElem?_eq_getElem inside

/-- One number decides the places of up to twelve things at once, so its range is the factorial of 12;
the pair is swapped if the number is even. -/
def shufflePair {α : Type} (x y : α) : StateM σ (α × α) := do
  return if (← below 479001600) % 2 = 0 then (y, x) else (x, y)

theorem shufflePair_cases {α : Type} (x y : α) (s : σ) :
    ((shufflePair x y).run s).1 = (x, y) ∨ ((shufflePair x y).run s).1 = (y, x) := by
  rw [shufflePair, StateT.run_bind]
  generalize (below 479001600).run s = drawn
  change (if drawn.1 % 2 = 0 then (y, x) else (x, y)) = _ ∨
    (if drawn.1 % 2 = 0 then (y, x) else (x, y)) = _
  split
  · exact .inr rfl
  · exact .inl rfl

instance : RandomSource σ where
  below := below
  unit := unit
  choose := choose
  shufflePair := shufflePair
  below_lt := below_lt
  choose_mem := choose_mem
  choose_nil _ := rfl
  shufflePair_cases := shufflePair_cases

end WordSource

/-- An endless sequence of words; a short word is the low half of a long one. -/
structure Endless where
  word : Nat → UInt64

namespace Endless

instance : WordSource Endless where
  next32 e := ((e.word 0).toUInt32, ⟨fun n => e.word (n + 1)⟩)
  next64 e := (e.word 0, ⟨fun n => e.word (n + 1)⟩)

def prepend (w : UInt64) (e : Endless) : Endless :=
  ⟨fun
    | 0 => w
    | n + 1 => e.word n⟩

@[simp] theorem next32_prepend (w : UInt64) (e : Endless) :
    WordSource.next32 (e.prepend w) = (w.toUInt32, e) := rfl

@[simp] theorem next64_prepend (w : UInt64) (e : Endless) :
    WordSource.next64 (e.prepend w) = (w, e) := rfl

end Endless

end VariantChess
