import VariantChess.Random.ChaCha
import VariantChess.Random.Words

/-!
The sources of words that are used: a list of words taken round and round, the SplitMix generator, and the
ChaCha stream of a seed. The first two make a short word from the low half of a long one, the third a
long word from two short ones, the first of them the low half.
-/

namespace VariantChess

inductive Stream
  | cycle (words : Array UInt64) (position : Nat)
  | splitMix (state : UInt64)
  | chaCha (key : ChaCha.Key) (position : Nat)

namespace Stream

def ofWords (words : Array UInt64) : Stream := cycle words 0

def ofSeed (seed : UInt64) : Stream := chaCha (ChaCha.keyOfSeed seed) 0

def splitMixWord (state : UInt64) : UInt64 :=
  let z := (state ^^^ (state >>> 30)) * 0xbf58476d1ce4e5b9
  let z := (z ^^^ (z >>> 27)) * 0x94d049bb133111eb
  z ^^^ (z >>> 31)

def next64 : Stream → UInt64 × Stream
  | cycle words n => (words.getD n 0, cycle words ((n + 1) % words.size))
  | splitMix s =>
    let s := s + 0x9e3779b97f4a7c15
    (splitMixWord s, splitMix s)
  | chaCha key n =>
    let low := (ChaCha.word key n).toUInt64
    let high := (ChaCha.word key (n + 1)).toUInt64
    (high <<< 32 ||| low, chaCha key (n + 2))

def next32 : Stream → UInt32 × Stream
  | chaCha key n => (ChaCha.word key n, chaCha key (n + 1))
  | s =>
    let (w, s) := s.next64
    (w.toUInt32, s)

instance : WordSource Stream := ⟨next32, next64⟩

end Stream

/-- A source that counts the words drawn from it, short or long. -/
structure Counted (σ : Type) where
  source : σ
  draws : Nat

instance {σ : Type} [WordSource σ] : WordSource (Counted σ) where
  next32 c :=
    let (w, s) := WordSource.next32 c.source
    (w, ⟨s, c.draws + 1⟩)
  next64 c :=
    let (w, s) := WordSource.next64 c.source
    (w, ⟨s, c.draws + 1⟩)

end VariantChess
