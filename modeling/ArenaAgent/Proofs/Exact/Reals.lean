import Mathlib.Analysis.SpecialFunctions.Complex.Arg
import ArenaAgent.Proofs.Arena.Lawful

/-!
The reals as numbers of the arena. Sums, products and roots are exact. Of sines, cosines and angles
nothing is known but that the angle of a vector gives the vector back and, where it is said, that
half a turn reverses directions; the functions of analysis are of this kind.
-/
namespace ArenaAgent

class Trigonometry where
  sin : ℝ → ℝ
  cos : ℝ → ℝ
  atan2 : ℝ → ℝ → ℝ
  pi : ℝ
  cos_atan2 : ∀ x y : ℝ, √(x * x + y * y) * cos (atan2 y x) = x
  sin_atan2 : ∀ x y : ℝ, √(x * x + y * y) * sin (atan2 y x) = y

class Trigonometry.HalfTurns [Trigonometry] : Prop where
  cos_add_pi : ∀ angle : ℝ, cos (angle + pi) = -cos angle
  sin_add_pi : ∀ angle : ℝ, sin (angle + pi) = -sin angle

noncomputable instance analysis : Trigonometry where
  sin := Real.sin
  cos := Real.cos
  atan2 y x := Complex.arg ⟨x, y⟩
  pi := Real.pi
  cos_atan2 x y := by
    have polar := Complex.norm_mul_cos_arg ⟨x, y⟩
    rwa [Complex.norm_def, Complex.normSq_mk] at polar
  sin_atan2 x y := by
    have polar := Complex.norm_mul_sin_arg ⟨x, y⟩
    rwa [Complex.norm_def, Complex.normSq_mk] at polar

instance : Trigonometry.HalfTurns where
  cos_add_pi := Real.cos_add_pi
  sin_add_pi := Real.sin_add_pi

namespace Exact

/-- A number without its fraction. -/
noncomputable def whole (a : ℝ) : ℤ :=
  if 0 ≤ a then ⌊a⌋ else ⌈a⌉

variable [Trigonometry]

noncomputable instance : Scalar ℝ where
  toAdd := inferInstance
  toSub := inferInstance
  toMul := inferInstance
  toDiv := inferInstance
  toLT := inferInstance
  toLE := inferInstance
  toOfScientific := inferInstance
  below a b := decide (a < b)
  atMost a b := decide (a ≤ b)
  below_iff := decide_eq_true_iff
  atMost_iff := decide_eq_true_iff
  sqrt := Real.sqrt
  sin := Trigonometry.sin
  cos := Trigonometry.cos
  atan2 := Trigonometry.atan2
  pi := Trigonometry.pi
  isFinite _ := true
  remainder a b := a - whole (a / b) * b
  toNat a := ⌊a⌋₊
  span? low high := some (high - low)
  pick low span word := low + word.toNat / UInt64.size * span

theorem zero_eq : (0.0 : ℝ) = 0 := by
  norm_num

/-- A fraction of a span that is not negative. -/
theorem between_of_fraction {low high : ℝ} (word : UInt64) (ordered : low ≤ high) :
    low ≤ low + word.toNat / UInt64.size * (high - low) ∧
      low + word.toNat / UInt64.size * (high - low) ≤ high := by
  have span : 0 ≤ high - low := sub_nonneg.mpr ordered
  have least : (0 : ℝ) ≤ word.toNat / UInt64.size := by positivity
  have most : (word.toNat : ℝ) / UInt64.size ≤ 1 := by
    rw [div_le_one (by norm_num)]
    exact_mod_cast word.toNat_lt_size.le
  have above := mul_nonneg least span
  have below := mul_le_mul_of_nonneg_right most span
  constructor <;> linarith

instance : Scalar.Lawful ℝ where
  le_self_of_le _ := ⟨le_refl _, le_refl _⟩
  le_trans := le_trans
  le_total _ _ := le_total ..
  lt_iff := lt_iff_le_not_ge
  zero_add {m} _ _ := by
    rw [zero_eq, zero_add]
    exact ⟨le_refl m, le_refl m⟩
  sub_le {w m} _ _ nonneg := sub_le_self w (zero_eq ▸ nonneg)
  pick_between {low high span} word ordered spans := by
    cases spans
    exact between_of_fraction word ordered

end Exact

end ArenaAgent
