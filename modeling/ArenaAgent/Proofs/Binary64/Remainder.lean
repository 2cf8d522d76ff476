import ArenaAgent.Proofs.Binary64.Products

/-!
Remainders of doubles. The remainder of a finite double by a finite one is exact, and it is smaller
than the divisor; of an infinity there is none.
-/
namespace ArenaAgent.Binary64

open Float.Model (UnpackedFloat Format)
open Float.Model.UnpackedFloat

variable {x y : Float}

/-! ## Mantissas on one grid -/

theorem aligned_fst (m : ℕ) (e : ℤ) (n : ℕ) (f : ℤ) :
    ((aligned m e n f).1 : ℚ) * 2 ^ min e f = m * 2 ^ e := by
  have shifted : (2 : ℚ) ^ (e - f).toNat * 2 ^ min e f = 2 ^ e := by
    rw [← zpow_natCast, ← zpow_add₀ (by norm_num)]
    congr 1
    omega
  rw [aligned, Nat.shiftLeft_eq, Nat.cast_mul, Nat.cast_pow, Nat.cast_ofNat, mul_assoc, shifted]

theorem aligned_snd (m : ℕ) (e : ℤ) (n : ℕ) (f : ℤ) :
    ((aligned m e n f).2 : ℚ) * 2 ^ min e f = n * 2 ^ f := by
  rw [min_comm]
  exact aligned_fst n f m e

/-- The remainder of two mantissas on one grid fits into a mantissa. -/
theorem aligned_mod_lt {m n : ℕ} {e f : ℤ} (hm : m < 2 ^ 53) (hn : n < 2 ^ 53) (positive : 0 < n) :
    (aligned m e n f).1 % (aligned m e n f).2 < 2 ^ 53 := by
  rcases le_total e f with finer | coarser
  · have none : (e - f).toNat = 0 := by omega
    have same : (aligned m e n f).1 = m := by rw [aligned, none, Nat.shiftLeft_zero]
    exact (Nat.mod_le _ _).trans_lt (same.symm ▸ hm)
  · have none : (f - e).toNat = 0 := by omega
    have same : (aligned m e n f).2 = n := by rw [aligned, none, Nat.shiftLeft_zero]
    rw [same]
    exact (Nat.mod_lt _ positive).trans hn

/-! ## Remainders -/

theorem packed_unpack {u : UnpackedFloat} (h : x.toModel.unpack = u) : Canonical u ∧ Packable u :=
  h ▸ canonical_unpack _

theorem not_isNumber_none : ¬ IsNumber (0.0 / 0.0) :=
  fun number => number rfl

/-- What is not finite has no remainder. -/
theorem not_isNumber_remainder (infinite : ¬ IsFinite x) (y : Float) :
    ¬ IsNumber (remainder x y) := by
  change ¬ x.toModel.unpack.isFinite = true at infinite
  rw [remainder]
  generalize x.toModel.unpack = u at infinite
  cases u with
  | zero | finite => exact absurd rfl infinite
  | notANumber | infinity => exact not_isNumber_none

/-- The remainder of two positive numbers is below the second one. -/
theorem remainder_of_finite {m n : ℕ} {e f : ℤ} {hm : 0 < m} {hn : 0 < n}
    (hx : x.toModel.unpack = .finite .positive m e hm)
    (hy : y.toModel.unpack = .finite .positive n f hn) :
    IsNumber (remainder x y) ∧ 0 ≤ value (remainder x y) ∧ value (remainder x y) < value y := by
  obtain ⟨⟨small, finest, -⟩, -⟩ := packed_unpack hx
  obtain ⟨⟨small', finest', -⟩, fits⟩ := packed_unpack hy
  have divisor : value y = n * 2 ^ f := by
    rw [value, hy, unpackedValue, signed]
  have bound : value y < limit := by
    rw [divisor]
    exact magnitude_lt_limit small' fits
  have scale := two_zpow_pos (min e f)
  have below := aligned_mod_lt small small' hn (e := e) (f := f)
  have positive : 0 < (aligned m e n f).2 := by
    have := mul_pos (Nat.cast_pos.mpr hn) (two_zpow_pos f)
    rw [← aligned_snd m e n f] at this
    exact_mod_cast (pos_iff_pos_of_mul_pos this).mpr scale
  have less : ((aligned m e n f).1 % (aligned m e n f).2 : ℕ) * (2 : ℚ) ^ min e f < value y := by
    rw [divisor, ← aligned_snd m e n f]
    exact mul_lt_mul_of_pos_right (by exact_mod_cast Nat.mod_lt _ positive) scale
  simp only [remainder, hx, hy]
  generalize (aligned m e n f).1 % (aligned m e n f).2 = r at below less
  split
  · have zero : value (.ofModel (.pack (.zero .positive))) = 0 := value_pack_zero .positive
    rw [zero, divisor]
    refine ⟨?_, le_refl _, mul_pos (Nat.cast_pos.mpr hn) (two_zpow_pos f)⟩
    intro none
    cases none
  · rename_i rest
    have nonneg : (0 : ℚ) ≤ r * 2 ^ min e f := mul_nonneg (Nat.cast_nonneg r) scale.le
    have given : Gives (UnpackedFloat.round Format.binary64 .positive r (min e f))
        (r * 2 ^ min e f) := by
      obtain ⟨rounding, canonical⟩ := round_spec .positive (Nat.pos_of_ne_zero rest) (min e f)
      exact ⟨rounding.trans (rounded_of_nonneg nonneg).symm, canonical,
        (hasSign_roundWithAccuracy ..).number⟩
    obtain ⟨number, exact⟩ := value_of_gives given
    rw [rounded_of_nonneg nonneg, roundedMagnitude_of_grid below (by omega),
      clip_of_abs_le (abs_le.mpr ⟨by linarith, by linarith⟩)] at exact
    exact ⟨number, by rw [exact]; exact nonneg, by rw [exact]; exact less⟩

/-- The remainder of a finite double that is not negative, by one that is positive. -/
theorem value_remainder (hx : IsFinite x) (nonneg : 0 ≤ value x) (hy : IsFinite y)
    (positive : 0 < value y) :
    IsNumber (remainder x y) ∧ 0 ≤ value (remainder x y) ∧ value (remainder x y) < value y := by
  obtain ⟨s', zero⟩ | ⟨n, f, hn, divisor⟩ := unpack_of_nonneg hy positive.le
  · rw [value, zero] at positive
    exact absurd positive (lt_irrefl _)
  · obtain ⟨s, zero⟩ | ⟨m, e, hm, dividend⟩ := unpack_of_nonneg hx nonneg
    · have same : remainder x y = x := by simp only [remainder, zero, divisor]
      have none : value x = 0 := by rw [value, zero, unpackedValue]
      rw [same, none]
      exact ⟨hx.isNumber, le_refl _, positive⟩
    · exact remainder_of_finite dividend divisor

/-! ## Whole parts -/

theorem toNat_ofNatClamp_le (n : ℕ) : (UInt64.ofNatClamp n).toNat ≤ n := by
  rw [UInt64.ofNatClamp]
  split
  · exact le_refl _
  · rename_i above
    exact (Nat.sub_le _ _).trans (not_lt.mp above)

/-- Cutting a mantissa off behind its point makes it no greater. -/
theorem toNat_roundToInt_le (m : ℕ) (e : ℤ) :
    ((roundToInt .positive m e).toNat : ℚ) ≤ m * 2 ^ e := by
  have cut :=
    ((represents_exact (m <<< (e - 0).toNat)).shiftRight (0 - (e - (e - 0).toNat)).toNat).nonneg
  have same : ((m <<< (e - 0).toNat : ℕ) : ℚ) / 2 ^ (0 - (e - (e - 0).toNat)).toNat =
      m * 2 ^ e := by
    rw [Nat.shiftLeft_eq, div_eq_iff (by positivity), ← zpow_natCast, mul_assoc,
      ← zpow_add₀ (by norm_num), Nat.cast_mul, Nat.cast_pow, Nat.cast_ofNat, ← zpow_natCast]
    congr 2
    omega
  rw [same] at cut
  exact cut

/-- The whole part of a number is not above it. -/
theorem toNat_le_value (hx : IsFinite x) (nonneg : 0 ≤ value x) :
    (x.toUInt64.toNat : ℚ) ≤ value x := by
  obtain ⟨s, zero⟩ | ⟨m, e, hm, positive⟩ := unpack_of_nonneg hx nonneg
  · have none : x.toUInt64 = UnpackedFloat.toUInt64 (.zero s) :=
      congrArg UnpackedFloat.toUInt64 zero
    rw [none]
    exact nonneg
  · have whole : x.toUInt64 = UInt64.ofNatClamp (roundToInt .positive m e).toNat :=
      congrArg UnpackedFloat.toUInt64 positive
    have bound : (x.toUInt64.toNat : ℚ) ≤ (roundToInt .positive m e).toNat := by
      rw [whole]
      exact_mod_cast toNat_ofNatClamp_le _
    rw [value, positive]
    exact bound.trans (toNat_roundToInt_le m e)

/-- What is no number has no whole part. -/
theorem toNat_of_not_isNumber (none : ¬ IsNumber x) : x.toUInt64.toNat = 0 := by
  have whole : x.toUInt64 = UnpackedFloat.toUInt64 .notANumber :=
    congrArg UnpackedFloat.toUInt64 (not_not.mp none)
  rw [whole]
  rfl

/-! ## Sums -/

/-- The greatest finite double. -/
def greatest : Float :=
  Float.ofBits 0x7FEFFFFFFFFFFFFF

theorem value_le_greatest (hx : IsFinite x) (nonneg : 0 ≤ value x) : value x ≤ value greatest := by
  have unpacked : greatest.toModel.unpack = .finite .positive (2 ^ 53 - 1) 971 (by norm_num) := rfl
  have top : value greatest = (2 ^ 53 - 1 : ℕ) * 2 ^ (971 : ℤ) := by
    rw [value, unpacked, unpackedValue, signed]
  rw [top]
  obtain ⟨s, zero⟩ | ⟨m, e, hm, positive⟩ := unpack_of_nonneg hx nonneg
  · rw [value, zero, unpackedValue]
    positivity
  · obtain ⟨⟨small, -, -⟩, fits⟩ := packed_unpack positive
    have bits : (m : ℚ) ≤ (2 ^ 53 - 1 : ℕ) := by exact_mod_cast Nat.le_sub_one_of_lt small
    rw [value, positive, unpackedValue, signed]
    exact mul_le_mul bits (zpow_le_zpow_right₀ (by norm_num) fits) (two_zpow_pos e).le
      (Nat.cast_nonneg _)

/-- Nothing small leads out of the finite doubles. -/
theorem finite_add_of_small (hx : IsFinite x) (hy : IsFinite y) (nonneg : 0 ≤ value x)
    (small : value x ≤ value 10.0) (nonneg' : 0 ≤ value y) :
    IsFinite (x + y) ∧ 0 ≤ value (x + y) := by
  have ten : IsFinite 10.0 := rfl
  have top : IsFinite greatest := rfl
  have farthest : (10.0 + greatest).isFinite = true := by decide +kernel
  obtain ⟨number, sum⟩ := value_add hx hy
  have below : value x + value y ≤ value 10.0 + value greatest :=
    add_le_add small (value_le_greatest hy nonneg')
  have lower : 0 ≤ value (x + y) := by
    rw [sum]
    exact le_clip_rounded isFinite_zero (add_nonneg nonneg nonneg')
  have upper : value (x + y) ≤ value (10.0 + greatest) := by
    rw [sum, (value_add ten top).2]
    exact clip_mono (rounded_mono below)
  have bound := (isFinite_iff.mp farthest).2
  rw [abs_of_nonneg (lower.trans upper)] at bound
  exact ⟨isFinite_iff.mpr ⟨number, by rw [abs_of_nonneg lower]; exact upper.trans_lt bound⟩, lower⟩

end ArenaAgent.Binary64
