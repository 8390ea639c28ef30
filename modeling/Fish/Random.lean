/-!
The generator behind random turns: four words of state, stepped by rotations and
exclusive ors, and seeded from a single word through a congruential generator.
-/

namespace Fish

structure Random where
  s0 : UInt64
  s1 : UInt64
  s2 : UInt64
  s3 : UInt64
  deriving DecidableEq, Repr, Inhabited

namespace Random

def rotateLeft (x : UInt64) (n : UInt64) : UInt64 :=
  (x <<< n) ||| (x >>> (64 - n))

/-- One step of the congruential generator that spreads a seed. -/
def spread (seed : UInt64) : UInt64 :=
  seed * 6364136223846793005 + 11634580027462260723

/-- The half word that a state of the spreading generator shows: its high bits, permuted,
then turned by an amount that its topmost bits give. -/
def half (state : UInt64) : UInt64 :=
  let w := (((state >>> 18) ^^^ state) >>> 27) &&& 0xffffffff
  let turn := state >>> 59
  ((w >>> turn) ||| (w <<< (32 - turn))) &&& 0xffffffff

/-- A word from two consecutive halves, the earlier one low, and the state after it. -/
def word (state : UInt64) : UInt64 × UInt64 :=
  let first := spread state
  let second := spread first
  (half first ||| (half second <<< 32), second)

/-- The state that a seed stands for. -/
def ofSeed (seed : UInt64) : Random :=
  let (s0, seed) := word seed
  let (s1, seed) := word seed
  let (s2, seed) := word seed
  let (s3, _) := word seed
  ⟨s0, s1, s2, s3⟩

/-- The word drawn next, and the state after it. -/
def next (r : Random) : UInt64 × Random :=
  let drawn := rotateLeft (r.s0 + r.s3) 23 + r.s0
  let s2 := r.s2 ^^^ r.s0
  let s3 := r.s3 ^^^ r.s1
  (drawn, ⟨r.s0 ^^^ s3, r.s1 ^^^ s2, s2 ^^^ (r.s1 <<< 17), rotateLeft s3 45⟩)

/-- The index below four that a word chooses, by its two topmost bits. Half of the words
are refused: those in which the bit below these two is set. -/
def quarter? (drawn : UInt64) : Option (Fin 4) :=
  if drawn <<< 2 ≤ 0x7fffffffffffffff then some (Fin.ofNat 4 (drawn >>> 62).toNat) else none

/-- Draws until a word is accepted, at most `draws + 1` times. -/
def quarterWithin : Nat → Random → Fin 4 × Random
  | 0, r => (Fin.ofNat 4 (r.next.1 >>> 62).toNat, r.next.2)
  | draws + 1, r =>
    match quarter? r.next.1 with
    | some i => (i, r.next.2)
    | none => quarterWithin draws r.next.2

/-- An index below four. The bound on the draws is four times the bits of the state, so
that a run of refusals as long as it is not to be met. -/
def quarter (r : Random) : Fin 4 × Random :=
  quarterWithin 1023 r

end Random

end Fish
