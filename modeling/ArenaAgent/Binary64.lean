import ArenaAgent.Scalar

/-!
Doubles as the numbers of the arena. Arithmetic is that of the hardware; the remainder is exact, and
a random word picks one of `2 ^ 52` equally spaced numbers between two ends.
-/
namespace ArenaAgent.Binary64

open Float.Model (UnpackedFloat Format)

/-- The whole numbers `m * 2 ^ (e - f)` and `n * 2 ^ (f - e)` on the finer one of
two binary grids. -/
def aligned (m : Nat) (e : Int) (n : Nat) (f : Int) : Nat × Nat :=
  (m <<< (e - f).toNat, n <<< (f - e).toNat)

/-- The exact remainder of `x` by `y`, with the sign of `x`. There is none of an
infinity, nor by zero. -/
def remainder (x y : Float) : Float :=
  match x.toModel.unpack, y.toModel.unpack with
  | .finite sign m e _, .finite _ n f _ =>
    let (m, n) := aligned m e n f
    if m % n = 0 then .ofModel (.pack (.zero sign))
    else .ofModel (.pack (.round Format.binary64 sign (m % n) (Min.min e f)))
  | .finite .., .infinity _ => x
  | .zero _, .finite .. => x
  | .zero _, .infinity _ => x
  | _, _ => 0.0 / 0.0

/-- The greatest fraction that 52 random bits make. -/
def greatestFraction : Float :=
  1.0 - 1.0 / 4503599627370496.0

/-- The greatest span, at most the double with bit pattern `bits`, that does not lead past
`high` from `low`. -/
def fittingSpan (low high : Float) : Nat → Float
  | 0 => 0.0
  | bits + 1 =>
    let span := Float.ofBits (UInt64.ofNat (bits + 1))
    if high < span * greatestFraction + low then fittingSpan low high bits else span

/-- A fraction from 0 to `greatestFraction`, made of the upper 52 bits of a word. -/
def fraction (word : UInt64) : Float :=
  Float.ofBits ((word >>> 12) ||| 0x3FF0000000000000) - 1.0

/-- The greatest span with which no number above `high` is picked. -/
def span? (low high : Float) : Option Float :=
  let span := (high - low) / greatestFraction
  if span.isFinite then some (fittingSpan low high span.toBits.toNat) else none

/-- The number at a random fraction of the span above `low`. -/
def pick (low span : Float) (word : UInt64) : Float :=
  fraction word * span + low

/-- The double nearest to the ratio of a circle to its diameter. -/
def pi : Float := 3.141592653589793

instance : Scalar Float where
  toOfScientific := inferInstance
  below := Float.lt
  atMost := Float.le
  below_iff := Iff.rfl
  atMost_iff := Iff.rfl
  sqrt := Float.sqrt
  sin := Float.sin
  cos := Float.cos
  atan2 := Float.atan2
  pi := pi
  isFinite := Float.isFinite
  remainder := remainder
  toNat x := x.toUInt64.toNat
  span? := span?
  pick := pick

end ArenaAgent.Binary64
