namespace TableLexer

/-- Draws that stay in their range, whatever they are made from. -/
class RandomSource (ρ : Type) where
  below : (n : Nat) → 0 < n → ρ → Fin n × ρ
  coin : ρ → Bool × ρ

/-- A source of machine words. -/
class WordSource (ρ : Type) where
  next32 : ρ → UInt32 × ρ
  next64 : ρ → UInt64 × ρ

namespace WordSource

variable {ρ : Type} [WordSource ρ]

/-- The number of words of 32 bits. -/
def size32 : Nat := 0x100000000

/-- Scales a word to `n` values. Where the fraction left over could round up, a second word
decides. -/
def below (n : Nat) (h : 0 < n) (r : ρ) : Fin n × ρ :=
  let (word, r) := next32 r
  let product := word.toNat * n
  let whole := product / size32
  let fraction := product % size32
  if size32 - n < fraction then
    let (second, r) := next32 r
    let carry := (fraction + second.toNat * n / size32) / size32
    (⟨(whole + carry) % n, Nat.mod_lt _ h⟩, r)
  else (⟨whole % n, Nat.mod_lt _ h⟩, r)

def coin (r : ρ) : Bool × ρ :=
  let (word, r) := next64 r
  (word < 0x8000000000000000, r)

instance : RandomSource ρ := ⟨below, coin⟩

end WordSource

/-- Words from a seed: a counter with a fixed stride, mixed by shifts and products. -/
structure SplitMix where
  state : UInt64
deriving DecidableEq, Repr

namespace SplitMix

def next (r : SplitMix) : UInt64 × SplitMix :=
  let s := r.state + 0x9E3779B97F4A7C15
  let z := (s ^^^ (s >>> 30)) * 0xBF58476D1CE4E5B9
  let z := (z ^^^ (z >>> 27)) * 0x94D049BB133111EB
  (z ^^^ (z >>> 31), ⟨s⟩)

def next32 (r : SplitMix) : UInt32 × SplitMix :=
  let (word, r) := r.next
  ((word >>> 32).toUInt32, r)

instance : WordSource SplitMix := ⟨next32, next⟩

end SplitMix

/-- The same words over and over. -/
structure WordCycle where
  words : Array UInt32
  position : Nat
deriving DecidableEq, Repr

namespace WordCycle

def next32 (r : WordCycle) : UInt32 × WordCycle :=
  (r.words.getD (r.position % r.words.size) 0, { r with position := r.position + 1 })

/-- The first of two words is the lower half. -/
def next64 (r : WordCycle) : UInt64 × WordCycle :=
  let (low, r) := r.next32
  let (high, r) := r.next32
  (low.toUInt64 ||| (high.toUInt64 <<< 32), r)

instance : WordSource WordCycle := ⟨next32, next64⟩

end WordCycle

end TableLexer
