/-!
A generator of 64-bit words with 256 bits of state, and the ways in which the agent draws from it.
-/
namespace ArenaAgent

structure Rng where
  s0 : UInt64
  s1 : UInt64
  s2 : UInt64
  s3 : UInt64
  deriving DecidableEq

namespace Rng

/-- The bits of a word moved `n` places to the left, those pushed out coming back on the right; `n`
is between 1 and 63. -/
def rotateLeft (x n : UInt64) : UInt64 :=
  (x <<< n) ||| (x >>> (64 - n))

/-- One step of the seeding sequence. -/
def spread (p : UInt64) : UInt64 :=
  p * 6364136223846793005 + 11634580027462260723

/-- Thirty-two bits of a seeding step: a mix of the step's bits, rotated by its highest five. -/
def mixed (p : UInt64) : UInt64 :=
  let x := (((p >>> 18) ^^^ p) >>> 27) &&& 0xFFFFFFFF
  let n := p >>> 59
  ((x >>> n) ||| (x <<< (32 - n))) &&& 0xFFFFFFFF

def seedWord (p : UInt64) : UInt64 × UInt64 :=
  let low := spread p
  let high := spread low
  (mixed low ||| (mixed high <<< 32), high)

/-- The generator that a 64-bit seed stands for. -/
def ofSeed (seed : UInt64) : Rng :=
  let (s0, p) := seedWord seed
  let (s1, p) := seedWord p
  let (s2, p) := seedWord p
  let (s3, _) := seedWord p
  ⟨s0, s1, s2, s3⟩

/-- A numeral stands for the generator of that seed. -/
instance (seed : Nat) : OfNat Rng seed :=
  ⟨.ofSeed (.ofNat seed)⟩

def next (r : Rng) : UInt64 × Rng :=
  let word := rotateLeft (r.s0 + r.s3) 23 + r.s0
  let s2 := r.s2 ^^^ r.s0
  let s3 := r.s3 ^^^ r.s1
  let s1 := r.s1 ^^^ s2
  let s0 := r.s0 ^^^ s3
  (word, ⟨s0, s1, s2 ^^^ (r.s1 <<< 17), rotateLeft s3 45⟩)

/-- The greatest low half of a product for which its high half is kept as a digit: with it, every
digit comes from equally many words. -/
def digitZone : Nat := 4294967289

/-- How often a word is drawn again before it is taken as it is. Six words in four thousand
million are refused, and a generator that goes on until it has a word that is not gives the same
digits, unless it refuses more than so many words in a row: only then does it go on where the
refused word is taken here. -/
def digitTries : Nat := 64

/-- Ten times the upper half of a word. Its own upper half is a digit. -/
def tenfold (word : UInt64) : Nat :=
  word.toNat / UInt32.size * 10

theorem tenfold_div_lt_ten (word : UInt64) : tenfold word / UInt32.size < 10 := by
  have := word.toNat_lt
  simp only [tenfold, UInt32.size]
  omega

/-- A digit from 0 to 9, drawn again while the word lies outside the zone, at most `tries` times. -/
def digitWithin : Nat → Rng → Nat × Rng
  | 0, r => (tenfold r.next.1 / UInt32.size, r.next.2)
  | tries + 1, r =>
    if tenfold r.next.1 % UInt32.size ≤ digitZone then (tenfold r.next.1 / UInt32.size, r.next.2)
    else digitWithin tries r.next.2

/-- A digit from 0 to 9, each equally likely. -/
def digit (r : Rng) : Nat × Rng :=
  digitWithin digitTries r

theorem digitWithin_lt_ten (tries : Nat) (r : Rng) : (digitWithin tries r).1 < 10 := by
  induction tries generalizing r with
  | zero => exact tenfold_div_lt_ten r.next.1
  | succ tries ih =>
    rw [digitWithin]
    split
    · exact tenfold_div_lt_ten r.next.1
    · exact ih r.next.2

theorem digit_lt_ten (r : Rng) : r.digit.1 < 10 :=
  digitWithin_lt_ten digitTries r

end Rng

end ArenaAgent
