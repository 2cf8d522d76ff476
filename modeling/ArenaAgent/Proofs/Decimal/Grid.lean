import ArenaAgent.Decimal.Rounding
import Mathlib

/-!
Decimals as rational numbers: what the leading digit, the decimal grid and the stripping of zeros
say about the number.
-/
namespace ArenaAgent

theorem lt_ten_pow_digitCount (n : ℕ) : n < 10 ^ digitCount n :=
  (Nat.length_toDigits_le_iff (by norm_num) Nat.length_toDigits_pos).mp (le_refl _)

theorem ten_pow_pred_digitCount_le {n : ℕ} (h : 0 < n) : 10 ^ (digitCount n - 1) ≤ n := by
  rcases Nat.eq_zero_or_pos (digitCount n - 1) with one | more
  · rw [one, pow_zero]
    exact h
  · refine not_lt.mp fun less => ?_
    have := (Nat.length_toDigits_le_iff (by norm_num) more).mpr less
    rw [← digitCount] at this
    omega

namespace Decimal

/-- The number that a decimal is. -/
def value (d : Decimal) : ℚ :=
  d.digits * 10 ^ d.exponent

theorem ten_zpow_pos (e : ℤ) : (0 : ℚ) < 10 ^ e :=
  zpow_pos (by norm_num) e

variable {num den : ℕ}

/-- A quotient from one on has as many digits as its whole part. -/
theorem quotient_bounds (hd : 0 < den) (large : den ≤ num) :
    (10 ^ (digitCount (num / den) - 1) : ℕ) ≤ (num : ℚ) / den ∧
      (num : ℚ) / den < (10 ^ digitCount (num / den) : ℕ) := by
  have denominator : (0 : ℚ) < den := by exact_mod_cast hd
  constructor
  · exact (Nat.cast_le.mpr (ten_pow_pred_digitCount_le (Nat.div_pos large hd))).trans
      Nat.cast_div_le
  · rw [div_lt_iff₀ denominator]
    exact_mod_cast Nat.lt_mul_of_div_lt (lt_ten_pow_digitCount (num / den)) hd

/-- The leading digit of a quotient stands at its magnitude. -/
theorem magnitude_spec (hn : 0 < num) (hd : 0 < den) :
    (10 : ℚ) ^ magnitude num den ≤ num / den ∧ (num : ℚ) / den < 10 ^ (magnitude num den + 1) := by
  have numerator : (0 : ℚ) < num := by exact_mod_cast hn
  have denominator : (0 : ℚ) < den := by exact_mod_cast hd
  rw [magnitude]
  split
  · rename_i large
    obtain ⟨lower, upper⟩ := quotient_bounds hd large
    have count : 0 < digitCount (num / den) := Nat.length_toDigits_pos
    rw [← Nat.cast_pred count, zpow_natCast, ← Nat.cast_succ, Nat.succ_eq_add_one,
      Nat.sub_add_cancel count, zpow_natCast]
    exact_mod_cast And.intro lower upper
  · rename_i small
    obtain ⟨lower, upper⟩ := quotient_bounds hn (Nat.le_of_not_le small)
    have count : 0 < digitCount (den / num) := Nat.length_toDigits_pos
    generalize digitCount (den / num) = c at *
    simp only
    have inverse : (num : ℚ) / den = ((den : ℚ) / num)⁻¹ := (inv_div _ _).symm
    have compared : den ≤ num * Nat.pow 10 (c - 1) ↔ (den : ℚ) / num ≤ (10 ^ (c - 1) : ℕ) := by
      rw [div_le_iff₀ numerator, mul_comm]
      exact_mod_cast Iff.rfl
    have quotient : (0 : ℚ) < den / num := div_pos denominator numerator
    have tens (e : ℕ) : ((10 ^ e : ℕ) : ℚ)⁻¹ = 10 ^ (-(e : ℤ)) := by
      rw [zpow_neg, zpow_natCast, Nat.cast_pow, Nat.cast_ofNat]
    have before : -((c - 1 : ℕ) : ℤ) = 1 - c := by omega
    have powers : (0 : ℚ) < (10 ^ (c - 1) : ℕ) := by exact_mod_cast Nat.pow_pos (by norm_num)
    rw [inverse]
    split
    · rename_i reached
      have same := le_antisymm (compared.mp reached) lower
      rw [same, tens, before]
      exact ⟨le_refl _, zpow_lt_zpow_right₀ (by norm_num) (by omega)⟩
    · rename_i missed
      have more := not_le.mp (mt compared.mpr missed)
      refine ⟨?_, ?_⟩
      · rw [← tens]
        exact inv_anti₀ quotient upper.le
      · rw [neg_add_eq_sub, ← before, ← tens]
        exact inv_strictAnti₀ powers more

/-- A quotient in units of a power of ten. -/
theorem onGrid_spec (num : ℕ) (hd : 0 < den) (unit : ℤ) :
    0 < (onGrid num den unit).2 ∧
      ((onGrid num den unit).1 : ℚ) / (onGrid num den unit).2 = num / den / 10 ^ unit := by
  rw [onGrid]
  split
  · rename_i up
    obtain ⟨k, rfl⟩ := Int.eq_ofNat_of_zero_le up
    simp only [Int.toNat_natCast, Nat.pow_eq]
    refine ⟨Nat.mul_pos hd (Nat.pow_pos (by norm_num)), ?_⟩
    rw [zpow_natCast, div_div]
    push_cast
    rfl
  · rename_i down
    obtain ⟨k, exponent⟩ := Int.eq_ofNat_of_zero_le (by omega : 0 ≤ -unit)
    rw [exponent, Int.toNat_natCast, Nat.pow_eq]
    refine ⟨hd, ?_⟩
    rw [← neg_neg unit, exponent, zpow_neg, zpow_natCast, div_inv_eq_mul]
    push_cast
    ring

/-- Zeros at the end of the digits can stand in the exponent as well. -/
theorem stripZeros_spec (fuel : ℕ) (d : Decimal) :
    (stripZeros fuel d).value = d.value ∧ (stripZeros fuel d).digits ≤ d.digits := by
  induction fuel generalizing d with
  | zero => exact ⟨rfl, le_refl _⟩
  | succ fuel ih =>
    rw [stripZeros]
    split
    · rename_i ends
      obtain ⟨same, less⟩ := ih ⟨d.digits / 10, d.exponent + 1⟩
      refine ⟨same.trans ?_, less.trans (Nat.div_le_self _ _)⟩
      have digits : (d.digits : ℚ) = (d.digits / 10 : ℕ) * 10 := by
        exact_mod_cast (Nat.div_mul_cancel (Nat.dvd_of_mod_eq_zero ends.1)).symm
      rw [value, value, digits, zpow_add_one₀ (by norm_num)]
      ring
    · exact ⟨rfl, le_refl _⟩

theorem canonical_spec (d : Decimal) :
    d.canonical.value = d.value ∧ d.canonical.digits ≤ d.digits :=
  stripZeros_spec _ d

end Decimal

end ArenaAgent
