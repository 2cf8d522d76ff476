/-!
Positive rationals on a decimal grid, in exact integer arithmetic: where the leading digit stands,
and which multiple of a power of ten is nearest.
-/
namespace ArenaAgent

/-- What happens to a value halfway between two neighbours. -/
inductive Tie where
  | up
  | toEven
  deriving DecidableEq

/-- The integer nearest to `num / den`. -/
def roundDiv (tie : Tie) (num den : Nat) : Nat :=
  let q := num / den
  match compare (2 * (num % den)) den with
  | .lt => q
  | .gt => q + 1
  | .eq => match tie with
    | .up => q + 1
    | .toEven => q + q % 2

/-- How many decimal digits `n` is written with. -/
def digitCount (n : Nat) : Nat :=
  (Nat.toDigits 10 n).length

/-- A positive decimal: `digits * 10 ^ exponent`. -/
structure Decimal where
  digits : Nat
  exponent : Int

namespace Decimal

/-- The exponent of the leading digit of `num / den`. -/
def magnitude (num den : Nat) : Int :=
  if den ≤ num then digitCount (num / den) - 1
  else
    let d := digitCount (den / num)
    if den ≤ num * Nat.pow 10 (d - 1) then 1 - d else -d

/-- `num / den` in units of `10 ^ unit`, again as a quotient. -/
def onGrid (num den : Nat) (unit : Int) : Nat × Nat :=
  if 0 ≤ unit then (num, den * Nat.pow 10 unit.toNat) else (num * Nat.pow 10 (-unit).toNat, den)

/-- Moves zeros at the end of the digits into the exponent; `fuel` bounds how many. -/
def stripZeros : Nat → Decimal → Decimal
  | 0, d => d
  | fuel + 1, d =>
    if d.digits % 10 = 0 ∧ d.digits ≠ 0 then stripZeros fuel ⟨d.digits / 10, d.exponent + 1⟩ else d

/-- The form without zeros at the end of the digits. -/
def canonical (d : Decimal) : Decimal :=
  stripZeros (digitCount d.digits) d

/-- `num / den` rounded to `places` significant digits. -/
def ofRatio (tie : Tie) (places num den : Nat) : Decimal :=
  let unit := magnitude num den - (places - 1 : Nat)
  let g := onGrid num den unit
  canonical ⟨roundDiv tie g.1 g.2, unit⟩

end Decimal

end ArenaAgent
