import RatingFactors.Failure

/-!
# A seeded source of random numbers

The Mersenne Twister with 624 words of 32 bits. A seed fixes the whole sequence,
so two runs with one seed draw the same latent vectors, the same roles and the
same starting order.

## Main definitions

* `Twister.ofSeed?` — the source for a seed; a seed must fit into 32 bits.
* `Twister.seeded` — the source for an optional seed.
* `Twister.word` — the next word.
* `Twister.unit` — the next double in `[0, 1)`, from two words.
* `Twister.symmetric` — the next double in `[-1, 1)`.
* `Twister.below` — the next whole number up to a bound, by rejection.
-/

namespace RatingFactors

/-- The state of the source: its words, and how many of them have been handed
out. -/
structure Twister where
  words : Array UInt32
  used : Nat

namespace Twister

/-- The number of words. -/
def size : Nat := 624

/-- The first word is the seed; each further one is a multiple of its
predecessor, mixed with its high bits and numbered. -/
def seedWords : Nat → UInt32 → Array UInt32 → Array UInt32
  | 0, _, words => words
  | n + 1, last, words =>
    let next :=
      (1812433253 : UInt32) * (last ^^^ (last >>> 30)) + UInt32.ofNat words.size
    seedWords n next (words.push next)

/-- The source for a seed of 32 bits. -/
def ofWord (seed : UInt32) : Twister :=
  ⟨seedWords (size - 1) seed #[seed], size⟩

/-- The source for a seed, which must lie between 0 and `2 ^ 32 - 1`. -/
def ofSeed? (seed : Int) : Option Twister :=
  if 0 ≤ seed && seed < UInt32.size then some (ofWord (UInt32.ofNat seed.toNat))
  else none

/-- The source for an optional seed. Without one it starts from the customary
word 5489. -/
def seeded (seed : Option Int) : Except Failure Twister :=
  match seed with
  | none => .ok (ofWord 5489)
  | some n =>
    match ofSeed? n with
    | some source => .ok source
    | none => .error (.seedOutOfRange n)

/-- Replaces word `k` by its twist with the next word and the word 397 places
on. -/
def twistAt (words : Array UInt32) (k : Nat) : Array UInt32 :=
  let upper := words.getD k 0 &&& 0x80000000
  let lower := words.getD ((k + 1) % size) 0 &&& 0x7fffffff
  let y := upper ||| lower
  let mixed := words.getD ((k + 397) % size) 0 ^^^ (y >>> 1)
  words.setIfInBounds k (if y &&& 1 = 0 then mixed else mixed ^^^ 0x9908b0df)

/-- Replaces every word in turn. -/
def twist (words : Array UInt32) : Array UInt32 :=
  (List.range size).foldl twistAt words

/-- Spreads the bits of a word before it is handed out. -/
def temper (y : UInt32) : UInt32 :=
  let y := y ^^^ (y >>> 11)
  let y := y ^^^ ((y <<< 7) &&& 0x9d2c5680)
  let y := y ^^^ ((y <<< 15) &&& 0xefc60000)
  y ^^^ (y >>> 18)

/-- The next word. -/
def word : StateM Twister UInt32 := fun source =>
  let fresh : Twister :=
    if size ≤ source.used then ⟨twist source.words, 0⟩ else source
  (temper (fresh.words.getD fresh.used 0), ⟨fresh.words, fresh.used + 1⟩)

/-- The next double in `[0, 1)`: 27 bits of one word over 26 bits of the
next. -/
def unit : StateM Twister Float := do
  let a ← word
  let b ← word
  return (Float.ofNat ((a >>> 5).toNat * 67108864 + (b >>> 6).toNat))
    / 9007199254740992.0

/-- The next double in `[-1, 1)`. -/
def symmetric : StateM Twister Float := do
  return -1.0 + 2.0 * (← unit)

/-- The results of `n` draws, in order. -/
def draws {β : Type} (draw : StateM Twister β) : Nat → StateM Twister (List β)
  | 0 => return []
  | n + 1 => do
    let first ← draw
    return first :: (← draws draw n)

/-- The first word that, cut by the mask, does not exceed the bound. Each try
succeeds with a chance of more than one half; after the given number of tries
the remainder is taken. -/
def rejecting (bound mask : UInt32) : Nat → StateM Twister Nat
  | 0 => do return (← word).toNat % (bound.toNat + 1)
  | tries + 1 => do
    let candidate := (← word) &&& mask
    if candidate ≤ bound then return candidate.toNat
    else rejecting bound mask tries

/-- The next whole number between 0 and `bound`. The mask is the smallest row of
ones that covers the bound; for the bound 0 nothing is drawn. -/
def below (bound : Nat) : StateM Twister Nat :=
  if bound = 0 then return 0
  else
    rejecting (UInt32.ofNat bound)
      (UInt32.ofNat ((1 <<< (bound.log2 + 1)) - 1)) 4096

end Twister

end RatingFactors
