import ArenaAgent.Proofs.Arena.Distances
import ArenaAgent.Proofs.Binary64.Products
import ArenaAgent.Proofs.Binary64.Zeros

/-!
Distances can be measured in doubles. Sums and roots of numbers that are not negative are
numbers, be they infinite.
-/
namespace ArenaAgent.Binary64

open Float.Model (UnpackedFloat Format)
open Float.Model.UnpackedFloat

variable {x y z : Float}

/-! ## Numbers that are not negative -/

theorem nonneg_iff : 0.0 ≤ x ↔ IsNumber x ∧ 0 ≤ value x := by
  rw [le_iff, value_zero]
  exact and_iff_right isFinite_zero.isNumber

/-- What a number that is not negative can be. -/
inductive Unsigned : UnpackedFloat → Prop
  | zero (s : Sign) : Unsigned (.zero s)
  | finite (m : ℕ) (e : ℤ) (hm : 0 < m) : Unsigned (.finite .positive m e hm)
  | infinity : Unsigned (.infinity .positive)

theorem unsigned_of_nonneg (h : 0.0 ≤ x) : Unsigned x.toModel.unpack := by
  obtain ⟨number, nonneg⟩ := nonneg_iff.mp h
  by_cases finite : IsFinite x
  · obtain ⟨s, zero⟩ | ⟨m, e, hm, positive⟩ := unpack_of_nonneg finite nonneg
    · exact zero ▸ .zero s
    · exact positive ▸ .finite m e hm
  · change ¬ x.toModel.unpack.isFinite = true at finite
    rw [IsNumber] at number
    rw [value] at nonneg
    generalize x.toModel.unpack = u at *
    cases u with
    | notANumber => exact absurd rfl number
    | zero | finite => exact absurd rfl finite
    | infinity s =>
      cases s with
      | positive => exact .infinity
      | negative => exact absurd limit_pos (not_lt.mpr (neg_nonneg.mp nonneg))

theorem nonneg_infinity : 0.0 ≤ Float.ofModel (.pack (.infinity .positive)) := by
  have unpacked : (Float.Model.pack (.infinity .positive)).unpack = .infinity .positive :=
    unpack_pack trivial trivial
  refine nonneg_iff.mpr ⟨fun none => ?_, ?_⟩
  · cases unpacked.symm.trans none
  · rw [value, unpacked]
    exact limit_pos.le

/-- Packing makes no number into none, rounded or not. -/
theorem HasSign.isNumber_pack {s : Sign} {u : UnpackedFloat} (h : HasSign s u) :
    IsNumber (.ofModel (.pack u)) := by
  have components {e : BitVec 11} {m : BitVec 52} (regular : e.toNat ≠ 2047 ∨ m.toNat = 0) :
      UnpackedFloat.unpack Format.binary64 (packComponents Format.binary64 s e m) ≠
        .notANumber := by
    intro none
    have fields := fields_packComponents s e m
    rw [none] at fields
    cases fields with
    | notANumber he hm => exact regular.elim (absurd he) hm
  change UnpackedFloat.unpack Format.binary64 (pack Format.binary64 u) ≠ .notANumber
  cases h with
  | zero => exact components (.inr rfl)
  | finite m e hm =>
    simp only [pack]
    split
    · exact components (.inr rfl)
    · rename_i small
      split
      · refine components (.inl ?_)
        rw [BitVec.toNat_ofNat]
        simp only [Nat.reducePow] at small
        omega
      · exact components (.inl (by decide))

theorem HasSign.nonneg_pack {u : UnpackedFloat} (h : HasSign .positive u) :
    0.0 ≤ Float.ofModel (.pack u) :=
  nonneg_iff.mpr ⟨h.isNumber_pack, h.value_pack_nonneg⟩

/-- A sum with an infinity. -/
theorem add_of_infinite {u v : UnpackedFloat} (hu : Unsigned u) (hv : Unsigned v)
    (infinite : ¬ (u.isFinite = true ∧ v.isFinite = true)) :
    UnpackedFloat.add Format.binary64 u v = .infinity .positive := by
  cases hu with
  | infinity => cases hv <;> rfl
  | zero | finite =>
    cases hv with
    | infinity => rfl
    | zero | finite => exact absurd ⟨rfl, rfl⟩ infinite

theorem nonneg_add (hx : 0.0 ≤ x) (hy : 0.0 ≤ y) : 0.0 ≤ x + y := by
  by_cases finite : IsFinite x ∧ IsFinite y
  · obtain ⟨number, sum⟩ := value_add finite.1 finite.2
    refine nonneg_iff.mpr ⟨number, ?_⟩
    rw [sum]
    exact le_clip_rounded isFinite_zero (add_nonneg (value_nonneg hx) (value_nonneg hy))
  · change 0.0 ≤
      Float.ofModel (.pack (UnpackedFloat.add Format.binary64 x.toModel.unpack y.toModel.unpack))
    rw [add_of_infinite (unsigned_of_nonneg hx) (unsigned_of_nonneg hy) finite]
    exact nonneg_infinity

theorem nonneg_square (number : IsNumber x) : 0.0 ≤ x * x := by
  refine nonneg_iff.mpr ⟨isNumber_square number, ?_⟩
  by_cases finite : IsFinite x
  · rw [(value_mul finite finite).2]
    exact le_clip_rounded isFinite_zero (mul_self_nonneg _)
  · rw [(value_square_of_infinite number finite).2]
    exact limit_pos.le

theorem nonneg_sqrt (h : 0.0 ≤ x) : 0.0 ≤ x.sqrt := by
  have unsigned := unsigned_of_nonneg h
  change 0.0 ≤ Float.ofModel (.pack (UnpackedFloat.sqrt Format.binary64 x.toModel.unpack))
  generalize x.toModel.unpack = u at unsigned
  cases unsigned with
  | zero s =>
    have zero := isZero_pack s
    exact nonneg_iff.mpr ⟨zero.isFinite.isNumber, zero.value.ge⟩
  | finite m e hm => exact (hasSign_roundWithAccuracy ..).nonneg_pack
  | infinity => exact nonneg_infinity

/-! ## The laws -/

theorem isFinite_between (hx : IsFinite x) (hz : IsFinite z) (lower : x ≤ y) (upper : y ≤ z) :
    IsFinite y := by
  obtain ⟨-, number, low⟩ := le_iff.mp lower
  obtain ⟨-, -, high⟩ := le_iff.mp upper
  have above := (abs_lt.mp (isFinite_iff.mp hx).2).1
  have below := (abs_lt.mp (isFinite_iff.mp hz).2).2
  exact isFinite_iff.mpr ⟨number, abs_lt.mpr ⟨above.trans_le low, high.trans_lt below⟩⟩

theorem value_of_rounded_zero {q : ℚ} (zero : q = 0) : clip (rounded q) = 0 := by
  have rounding := clip_rounded isFinite_zero
  rw [value_zero] at rounding
  rw [zero, rounding]

instance : Scalar.Measures Float where
  isFinite_zero := isFinite_zero
  isFinite_between := isFinite_between
  le_self :=
    fun {x} (finite : IsFinite x) => le_iff.mpr ⟨finite.isNumber, finite.isNumber, le_refl _⟩
  sub_le_self := by
    intro x y (hx : IsFinite x) (hy : IsFinite y)
    have number := (value_sub hx hy).1
    exact le_iff.mpr ⟨number, number, le_refl _⟩
  square_nonneg h := nonneg_square (le_iff.mp h).1
  add_nonneg := nonneg_add
  sqrt_nonneg := nonneg_sqrt
  mul_zero := by
    intro x (finite : IsFinite x)
    obtain ⟨number, product⟩ := value_mul finite isFinite_zero
    refine same_iff.mpr ⟨number, isFinite_zero.isNumber, ?_⟩
    rw [product, value_zero]
    exact value_of_rounded_zero (mul_zero _)
  zero_mul := by
    intro z x zero (finite : IsFinite x)
    rw [← isZero_iff] at zero
    obtain ⟨number, product⟩ := value_mul zero.isFinite finite
    refine same_iff.mpr ⟨number, isFinite_zero.isNumber, ?_⟩
    rw [product, zero.value, value_zero]
    exact value_of_rounded_zero (zero_mul _)
  add_zero := by
    intro x z (finite : IsFinite x) zero
    rw [← isZero_iff] at zero
    obtain ⟨number, sum⟩ := value_add finite zero.isFinite
    refine same_iff.mpr ⟨number, finite.isNumber, ?_⟩
    rw [sum, zero.value, add_zero, clip_rounded finite]

instance : Scalar.Cancels Float where
  sub_same := by
    intro x y (hx : IsFinite x) (hy : IsFinite y) same
    obtain ⟨number, difference⟩ := value_sub hx hy
    refine same_iff.mpr ⟨number, isFinite_zero.isNumber, ?_⟩
    rw [difference, (same_iff.mp same).2.2, value_zero]
    exact value_of_rounded_zero (sub_self _)
  sqrt_zero := by
    intro z zero
    obtain ⟨s, zero⟩ := isZero_iff.mpr zero
    rw [← isZero_iff]
    change IsZero (.ofModel (.pack (UnpackedFloat.sqrt Format.binary64 z.toModel.unpack)))
    rw [zero]
    exact isZero_pack s

end ArenaAgent.Binary64
