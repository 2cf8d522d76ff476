import ArenaAgent.Decimal.Rounding

/-!
The shortest decimal that reads back as a given double.

A finite double other than zero stands for all reals that round to it: an interval around its value,
whose ends belong to it when the last bit of its mantissa is zero. `Decimal.shortest` takes the
least number of digits with which some decimal lies in that interval, and of the decimals with so
many digits the nearest one.
-/
namespace ArenaAgent

open Float.Model (UnpackedFloat)

/-- The reals that round to a positive double, in units of `1 / unit`. -/
structure RoundingInterval where
  low : Nat
  value : Nat
  high : Nat
  unit : Nat
  /-- Whether `low` and `high` round to the double themselves. -/
  closed : Bool

namespace RoundingInterval

/-- The least exponent of a binary64 mantissa. -/
def leastExponent : Int := -1074

/-- The interval of `mantissa * 2 ^ exponent`. Below a power of two the doubles lie twice as close,
so there the lower half is half as wide; the least exponent is the exception. -/
def ofMantissa (mantissa : Nat) (exponent : Int) : RoundingInterval :=
  let narrow := mantissa = 1 <<< 52 ∧ leastExponent < exponent
  let scale := 1 <<< (exponent - 2).toNat
  { low := (4 * mantissa - (if narrow then 1 else 2)) * scale
    value := 4 * mantissa * scale
    high := (4 * mantissa + 2) * scale
    unit := 1 <<< (2 - exponent).toNat
    closed := mantissa % 2 = 0 }

/-- Whether `digits * 10 ^ exponent` rounds to the double. -/
def contains (i : RoundingInterval) (d : Decimal) : Bool :=
  let up := Nat.pow 10 d.exponent.toNat
  let down := Nat.pow 10 (-d.exponent).toNat
  let point := d.digits * up * i.unit
  if i.closed then i.low * down ≤ point ∧ point ≤ i.high * down
  else i.low * down < point ∧ point < i.high * down

end RoundingInterval

namespace Decimal

/-- The decimal of `places` digits that rounds to the double and is nearest to it, if there is one.
Only the two neighbours on the grid can be. -/
def nearestOf (tie : Tie) (i : RoundingInterval) (places : Nat) : Option Decimal :=
  let unit := magnitude i.value i.unit - (places - 1 : Nat)
  let g := onGrid i.value i.unit unit
  let below : Decimal := ⟨g.1 / g.2, unit⟩
  let above : Decimal := ⟨g.1 / g.2 + 1, unit⟩
  match i.contains below, i.contains above with
  | true, false => some below
  | false, true => some above
  | true, true => some ⟨roundDiv tie g.1 g.2, unit⟩
  | false, false => none

/-- Seventeen digits always suffice. -/
def shortest (tie : Tie) (i : RoundingInterval) : Decimal :=
  canonical (((List.range' 1 17).findSome? (nearestOf tie i)).getD (ofRatio tie 17 i.value i.unit))

end Decimal

end ArenaAgent
