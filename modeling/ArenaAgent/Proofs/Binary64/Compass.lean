import ArenaAgent.Proofs.Binary64.Distances

/-!
Doubles with a compass of two directions. Of sines, cosines and angles the development
assumes only what `Scalar.Angles` says, and the functions of the machine cannot be evaluated
in a proof. A compass can: along the first axis it has their values, and everything else
about it is as in doubles.
-/
namespace ArenaAgent.Binary64

/-- A double whose angles are told by a compass. -/
def Compass : Type :=
  Float

namespace Compass

/-- Forwards is the angle zero, backwards is half a turn. -/
def bearing (_ x : Float) : Float :=
  if x < 0.0 then pi else 0.0

def sine (a : Float) : Float :=
  if a < 1.0 then 0.0 else 1.2246467991473532e-16

def cosine (a : Float) : Float :=
  if a < 1.0 then 1.0 else -1.0

theorem isFinite_bearing (y x : Float) :
    (bearing y x).isFinite = true ∧ (bearing y x + pi).isFinite = true := by
  rw [bearing]
  split <;> decide +kernel

theorem isFinite_sine (a : Float) : (sine a).isFinite = true := by
  rw [sine]
  split <;> decide +kernel

theorem isFinite_cosine (a : Float) : (cosine a).isFinite = true := by
  rw [cosine]
  split <;> decide +kernel

instance : Scalar Compass :=
  { (inferInstance : Scalar Float) with
    sin := sine
    cos := cosine
    atan2 := bearing }

instance : Scalar.Lawful Compass where
  le_self_of_le := Scalar.Lawful.le_self_of_le (α := Float)
  le_trans := Scalar.Lawful.le_trans (α := Float)
  le_total := Scalar.Lawful.le_total (α := Float)
  lt_iff := Scalar.Lawful.lt_iff (α := Float)
  zero_add := Scalar.Lawful.zero_add (α := Float)
  sub_le := Scalar.Lawful.sub_le (α := Float)
  pick_between := Scalar.Lawful.pick_between (α := Float)

instance : Scalar.ZerosAlike Compass where
  eq_or_zeros := Scalar.ZerosAlike.eq_or_zeros (α := Float)
  zero_add_zero := Scalar.ZerosAlike.zero_add_zero (α := Float)
  sub_zero_eq := Scalar.ZerosAlike.sub_zero_eq (α := Float)
  zero_sub_square := Scalar.ZerosAlike.zero_sub_square (α := Float)

instance : Scalar.Measures Compass where
  isFinite_zero := Scalar.Measures.isFinite_zero (α := Float)
  isFinite_between := Scalar.Measures.isFinite_between (α := Float)
  le_self := Scalar.Measures.le_self (α := Float)
  sub_le_self := Scalar.Measures.sub_le_self (α := Float)
  square_nonneg := Scalar.Measures.square_nonneg (α := Float)
  add_nonneg := Scalar.Measures.add_nonneg (α := Float)
  sqrt_nonneg := Scalar.Measures.sqrt_nonneg (α := Float)
  mul_zero := Scalar.Measures.mul_zero (α := Float)
  zero_mul := Scalar.Measures.zero_mul (α := Float)
  add_zero := Scalar.Measures.add_zero (α := Float)

instance : Scalar.Angles Compass where
  isFinite_atan2 := fun {x y} _ _ => isFinite_bearing y x
  isFinite_sin := fun {a} _ => isFinite_sine a
  isFinite_cos := fun {a} _ => isFinite_cosine a

end Compass

end ArenaAgent.Binary64
