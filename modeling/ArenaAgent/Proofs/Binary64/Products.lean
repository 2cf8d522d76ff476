import ArenaAgent.Proofs.Arena.Radii
import ArenaAgent.Proofs.Binary64.Lawful

/-!
Products of doubles keep their order, since rounding does. Squares of infinities are infinite.
-/
namespace ArenaAgent.Binary64

open Float.Model (UnpackedFloat Format)
open Float.Model.UnpackedFloat

variable {x y : Float}

theorem abs_value_le (x : Float) : |value x| ≤ limit :=
  abs_unpackedValue_le (canonical_unpack _).1 (canonical_unpack _).2

/-- The square of an infinity. -/
theorem value_square_of_infinite (number : IsNumber x) (infinite : ¬ IsFinite x) :
    IsNumber (x * x) ∧ value (x * x) = limit := by
  change ¬ x.toModel.unpack.isFinite = true at infinite
  change (Float.Model.pack
    (UnpackedFloat.mul Format.binary64 x.toModel.unpack x.toModel.unpack)).unpack ≠ _ ∧
    unpackedValue (Float.Model.pack
      (UnpackedFloat.mul Format.binary64 x.toModel.unpack x.toModel.unpack)).unpack = limit
  rw [IsNumber] at number
  generalize x.toModel.unpack = u at *
  cases u with
  | notANumber => exact absurd rfl number
  | zero | finite => exact absurd rfl infinite
  | infinity s =>
    have positive : UnpackedFloat.mul Format.binary64 (.infinity s) (.infinity s) =
        .infinity .positive := by
      cases s <;> rfl
    have unpacked : (Float.Model.pack (.infinity .positive)).unpack = .infinity .positive :=
      unpack_pack trivial trivial
    rw [positive, unpacked]
    refine ⟨?_, rfl⟩
    intro same
    cases same

/-- The square of a number is one. -/
theorem isNumber_square (number : IsNumber x) : IsNumber (x * x) := by
  by_cases finite : IsFinite x
  · exact (value_mul finite finite).1
  · exact (value_square_of_infinite number finite).1

theorem value_mul_le_mul {z w : Float} (hx : IsFinite x) (hy : IsFinite y) (hz : IsFinite z)
    (hw : IsFinite w) (h : value x * value y ≤ value z * value w) : x * y ≤ z * w := by
  obtain ⟨number, product⟩ := value_mul hx hy
  obtain ⟨number', product'⟩ := value_mul hz hw
  refine le_iff.mpr ⟨number, number', ?_⟩
  rw [product, product']
  exact clip_mono (rounded_mono h)

theorem value_nonneg (h : 0.0 ≤ x) : 0 ≤ value x :=
  (le_iff.mp h).2.2

theorem square_le_square (nonneg : 0.0 ≤ x) (h : x ≤ y) : x * x ≤ y * y := by
  obtain ⟨number, number', below⟩ := le_iff.mp h
  have lower := value_nonneg nonneg
  by_cases finite : IsFinite y
  · have bound := (isFinite_iff.mp finite).2
    rw [abs_of_nonneg (lower.trans below)] at bound
    have finite' : IsFinite x :=
      isFinite_iff.mpr ⟨number, by rw [abs_of_nonneg lower]; exact below.trans_lt bound⟩
    exact value_mul_le_mul finite' finite' finite finite (mul_self_le_mul_self lower below)
  · obtain ⟨infinite, greatest⟩ := value_square_of_infinite number' finite
    refine le_iff.mpr ⟨isNumber_square number, infinite, ?_⟩
    rw [greatest]
    exact (abs_le.mp (abs_value_le _)).2

instance : Scalar.OrderedProducts Float where
  mul_nonneg := by
    intro x y (hx : IsFinite x) (hy : IsFinite y) nonneg nonneg'
    obtain ⟨number, product⟩ := value_mul hx hy
    refine le_iff.mpr ⟨isFinite_zero.isNumber, number, ?_⟩
    rw [product, value_zero]
    exact le_clip_rounded isFinite_zero (mul_nonneg (value_nonneg nonneg) (value_nonneg nonneg'))
  mul_le_mul_right := by
    intro x y z (hx : IsFinite x) (hy : IsFinite y) (hz : IsFinite z) _ below nonneg
    exact value_mul_le_mul hx hz hy hz
      (mul_le_mul_of_nonneg_right (le_iff.mp below).2.2 (value_nonneg nonneg))
  mul_self_le := square_le_square
  pixelsPerMeter_nonneg := by decide +kernel

end ArenaAgent.Binary64
