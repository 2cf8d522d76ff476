import ArenaAgent.Json.Token

/-!
The double that a JSON number stands for. The digits are gathered into one 64-bit integer, which is
then scaled by a power of ten in floating point: up to two roundings, so a number of many digits or
with a large exponent may miss the nearest double by a little. Digits that do not fit into 64 bits
count as zeros before the point and as nothing after it. A number too large for a double is refused.
-/
namespace ArenaAgent.Json

/-- Whether `10 * s + d` is a 64-bit integer. -/
def fits (s d : Nat) : Bool :=
  10 * s + d < UInt64.size

/-- The gathered integer, and how many digits at the end did not fit. -/
def gatherWhole (s : Nat) : List Nat → Nat × Nat
  | [] => (s, 0)
  | d :: ds => if fits s d then gatherWhole (10 * s + d) ds else (s, ds.length + 1)

/-- Goes on gathering after the point; the second component counts the digits taken. -/
def gatherFraction (s taken : Nat) : List Nat → Nat × Nat
  | [] => (s, taken)
  | d :: ds => if fits s d then gatherFraction (10 * s + d) (taken + 1) ds else (s, taken)

/-- The double nearest to `10 ^ n`. -/
def powerOfTen (n : Nat) : Float :=
  Float.ofScientific 1 false n

/-- The greatest power of ten used in one scaling step. -/
def greatestPower : Nat := 308

/-- Divides by `10 ^ 308` so many times, or until nothing is left. -/
def divideRepeatedly : Nat → Float → Float
  | 0, x => x
  | n + 1, x => if x == 0.0 then x else divideRepeatedly n (x / powerOfTen greatestPower)

/-- `x / 10 ^ n`, in steps when the power is too large. -/
def scaleDown (x : Float) (n : Nat) : Float :=
  let steps := (n - 1) / greatestPower
  divideRepeatedly steps x / powerOfTen (n - steps * greatestPower)

/-- `x * 10 ^ n`, if that is finite. -/
def scaleUp (x : Float) (n : Nat) : Option Float :=
  if greatestPower < n then (if x == 0.0 then some x else none)
  else
    let y := x * powerOfTen n
    if y.isInf then none else some y

def Numeral.magnitude (n : Numeral) : Option Float :=
  let (s, dropped) := gatherWhole 0 n.whole
  let (s, taken) := gatherFraction s 0 n.fraction
  let x := (UInt64.ofNat s).toFloat
  let exponent := (dropped : Int) - taken + n.exponent.getD 0
  if 0 ≤ exponent then scaleUp x exponent.toNat else some (scaleDown x (-exponent).toNat)

/-- The double a number stands for. A minus sign holds for zero too. -/
def Numeral.toFloat? (n : Numeral) : Option Float :=
  n.magnitude.map fun x => if n.negative then -x else x

/-- The integer a number stands for, if it is written as one and is not negative. -/
def Numeral.toNat? (n : Numeral) : Option Nat :=
  if n.negative ∨ n.fraction ≠ [] ∨ n.exponent.isSome then none else some (valueOf n.whole)

end ArenaAgent.Json
