import ArenaAgent.Proofs.Binary64.Quotients

/-!
How far rounding leads. A rounded magnitude is off by at most one unit in `2 ^ 53`, or by half the
least distance of doubles (`abs_roundedMagnitude_sub_le`), and the relative errors of products and
quotients add up (`Within`).
-/
namespace ArenaAgent.Binary64

open Float.Model (UnpackedFloat Format)
open Float.Model.UnpackedFloat

/-! ## One rounding -/

theorem abs_nearest_sub_le (q : ℚ) : |nearest q - q| ≤ 1 / 2 := by
  have below := Int.floor_le q
  have above := Int.lt_floor_add_one q
  rw [nearest, abs_le]
  split_ifs with less more
  · constructor <;> linarith
  · push_cast
    constructor <;> linarith
  · have half : q = ⌊q⌋ + 1 / 2 := by linarith
    rcases Int.emod_two_eq_zero_or_one ⌊q⌋ with even | odd
    · rw [even, add_zero]
      constructor <;> linarith
    · rw [odd]
      push_cast
      constructor <;> linarith

theorem abs_roundedMagnitude_sub_le_grid (q : ℚ) :
    |roundedMagnitude q - q| ≤ 2 ^ gridExponent q / 2 := by
  have scale := two_zpow_pos (gridExponent q)
  have step :
      roundedMagnitude q - q = (nearest (q / 2 ^ gridExponent q) - q / 2 ^ gridExponent q) *
        2 ^ gridExponent q := by
    rw [sub_mul, div_mul_cancel₀ _ scale.ne', roundedMagnitude]
  rw [step, abs_mul, abs_of_pos scale]
  have := mul_le_mul_of_nonneg_right (abs_nearest_sub_le (q / 2 ^ gridExponent q)) scale.le
  linarith

/-- The relative error of a normal magnitude. -/
def unitError : ℚ := 1 / 2 ^ 53

/-- Half the least distance of two doubles. -/
def leastError : ℚ := 2 ^ (-1075 : ℤ)

theorem abs_roundedMagnitude_sub_le {q : ℚ} (h : 0 ≤ q) :
    |roundedMagnitude q - q| ≤ max (q * unitError) leastError := by
  rcases h.eq_or_lt with rfl | positive
  · rw [roundedMagnitude_zero, sub_zero, abs_zero]
    exact le_max_of_le_left (by rw [zero_mul])
  · refine (abs_roundedMagnitude_sub_le_grid q).trans ?_
    have least : -1074 ≤ gridExponent q := le_max_right _ _
    rcases least.lt_or_eq with coarse | finest
    · refine le_max_of_le_left ?_
      have normal := le_of_gridExponent positive coarse
      rw [zpow_add₀ (by norm_num)] at normal
      rw [unitError, mul_one_div, div_le_div_iff₀ (by norm_num) (by norm_num)]
      have : (2 : ℚ) ^ (52 : ℤ) = 2 ^ 52 := zpow_natCast 2 52
      rw [this] at normal
      linarith
    · refine le_max_of_le_right ?_
      rw [← finest, leastError, show (-1074 : ℤ) = -1075 + 1 from rfl, zpow_add₀ (by norm_num)]
      norm_num

/-! ## Errors that add up -/

/-- Apart by at most the relative errors of `k` roundings. -/
structure Within (k : ℕ) (p q : ℚ) : Prop where
  pos : 0 < p
  pos' : 0 < q
  lower : q * (1 - unitError) ^ k ≤ p
  upper : p * (1 - unitError) ^ k ≤ q

theorem unitError_bounds : 0 < unitError ∧ unitError < 1 := by
  rw [unitError]
  norm_num

theorem shrink_pos (k : ℕ) : 0 < (1 - unitError) ^ k :=
  pow_pos (by linarith [unitError_bounds.2]) k

variable {k l : ℕ} {p q r s : ℚ}

theorem Within.mono (h : Within k p q) (more : k ≤ l) : Within l p q := by
  have fewer : (1 - unitError) ^ l ≤ (1 - unitError) ^ k :=
    pow_le_pow_of_le_one (by linarith [unitError_bounds.2]) (by linarith [unitError_bounds.1]) more
  exact ⟨h.pos, h.pos', (mul_le_mul_of_nonneg_left fewer h.pos'.le).trans h.lower,
    (mul_le_mul_of_nonneg_left fewer h.pos.le).trans h.upper⟩

theorem Within.mul (h : Within k p q) (h' : Within l r s) : Within (k + l) (p * r) (q * s) := by
  have product {a b c d : ℚ} (hb : 0 < b) (hc : 0 < c) (lower : a * (1 - unitError) ^ k ≤ b)
      (lower' : c * (1 - unitError) ^ l ≤ d) : a * c * (1 - unitError) ^ (k + l) ≤ b * d := by
    rw [pow_add, mul_mul_mul_comm]
    exact mul_le_mul lower lower' (mul_pos hc (shrink_pos l)).le hb.le
  exact ⟨mul_pos h.pos h'.pos, mul_pos h.pos' h'.pos', product h.pos h'.pos' h.lower h'.lower,
    product h.pos' h'.pos h.upper h'.upper⟩

theorem Within.inv (h : Within k p q) : Within k p⁻¹ q⁻¹ := by
  have inverse {a b : ℚ} (ha : 0 < a) (hb : 0 < b) (lower : a * (1 - unitError) ^ k ≤ b) :
      b⁻¹ * (1 - unitError) ^ k ≤ a⁻¹ := by
    rw [inv_mul_le_iff₀ hb, ← div_eq_mul_inv, le_div_iff₀ ha, mul_comm]
    exact lower
  exact ⟨inv_pos.mpr h.pos, inv_pos.mpr h.pos', inverse h.pos h.pos' h.upper,
    inverse h.pos' h.pos h.lower⟩

theorem Within.div (h : Within k p q) (h' : Within l r s) : Within (k + l) (p / r) (q / s) := by
  rw [div_eq_mul_inv, div_eq_mul_inv]
  exact h.mul h'.inv

theorem Within.trans (h : Within k p q) (h' : Within l q r) : Within (k + l) p r := by
  have chain {a b c : ℚ} {i j : ℕ} (lower : b * (1 - unitError) ^ i ≤ a)
      (lower' : c * (1 - unitError) ^ j ≤ b) : c * (1 - unitError) ^ (i + j) ≤ a := by
    rw [add_comm, pow_add, ← mul_assoc]
    exact (mul_le_mul_of_nonneg_right lower' (shrink_pos i).le).trans lower
  refine ⟨h.pos, h'.pos', chain h.lower h'.lower, ?_⟩
  rw [add_comm]
  exact chain h'.upper h.upper

theorem within_of_abs_sub_le {ε : ℚ} (positive : 0 < q) (off : |p - q| ≤ q * ε)
    (few : (1 - unitError) ^ k ≤ 1 - ε) : Within k p q := by
  have shrink := shrink_pos k
  obtain ⟨lower, upper⟩ := abs_le.mp off
  have below : q * (1 - ε) ≤ p := by linarith
  have error : 0 ≤ ε := nonneg_of_mul_nonneg_right ((abs_nonneg _).trans off) positive
  refine ⟨(mul_pos positive (shrink.trans_le few)).trans_le below, positive, ?_, ?_⟩
  · exact (mul_le_mul_of_nonneg_left few positive.le).trans below
  · calc
      p * (1 - unitError) ^ k ≤ q * (1 + ε) * (1 - ε) :=
        mul_le_mul (by linarith) few shrink.le (by positivity)
      _ = q - q * (ε * ε) := by ring
      _ ≤ q := sub_le_self q (by positivity)

/-- Rounding a magnitude that is normal, or at least a quarter of what normal magnitudes are. -/
theorem within_roundedMagnitude (large : 2 ^ (-1024 : ℤ) ≤ q) :
    Within 5 (roundedMagnitude q) q ∧ (2 ^ (-1022 : ℤ) ≤ q → Within 1 (roundedMagnitude q) q) := by
  have positive : 0 < q := (two_zpow_pos _).trans_le large
  have off := abs_roundedMagnitude_sub_le positive.le
  have least : leastError = 2 ^ (-1022 : ℤ) * unitError := by
    rw [leastError, unitError, one_div, ← zpow_natCast, ← zpow_neg, ← zpow_add₀ (by norm_num)]
    rfl
  have quarter : (2 : ℚ) ^ (-1022 : ℤ) = 4 * 2 ^ (-1024 : ℤ) := by
    rw [show (-1022 : ℤ) = 2 + -1024 from rfl, zpow_add₀ (by norm_num)]
    norm_num
  obtain ⟨tiny, -⟩ := unitError_bounds
  constructor
  · have bound : max (q * unitError) leastError ≤ q * (4 * unitError) := by
      refine max_le (by nlinarith) ?_
      rw [least, quarter]
      nlinarith
    refine within_of_abs_sub_le positive (off.trans bound) ?_
    rw [unitError]
    norm_num
  · intro normal
    have bound : max (q * unitError) leastError = q * unitError := by
      refine max_eq_left ?_
      rw [least]
      exact mul_le_mul_of_nonneg_right normal tiny.le
    rw [bound] at off
    exact within_of_abs_sub_le positive off (by rw [pow_one])

/-- Rounding two magnitudes that are close to each other. -/
theorem abs_roundedMagnitude_sub_le_of_within (h : Within 8 p q) :
    |roundedMagnitude p - roundedMagnitude q| ≤ roundedMagnitude q / 2 ^ 49 + 2 ^ (-1073 : ℤ) := by
  have few : 1 - 8 * unitError ≤ (1 - unitError) ^ 8 := by
    rw [unitError]
    norm_num
  obtain ⟨hp, hq, lower, upper⟩ := h
  have lower : q * (1 - 8 * unitError) ≤ p := (mul_le_mul_of_nonneg_left few hq.le).trans lower
  have upper : p * (1 - 8 * unitError) ≤ q := (mul_le_mul_of_nonneg_left few hp.le).trans upper
  obtain ⟨below, above⟩ := abs_le.mp (abs_roundedMagnitude_sub_le hp.le)
  obtain ⟨below', above'⟩ := abs_le.mp (abs_roundedMagnitude_sub_le hq.le)
  have sum (a : ℚ) (ha : 0 < a) : max (a * unitError) leastError ≤ a * unitError + leastError :=
    max_le_add_of_nonneg (mul_nonneg ha.le unitError_bounds.1.le) (two_zpow_pos _).le
  have bound := sum p hp
  have bound' := sum q hq
  have least : (2 : ℚ) ^ (-1073 : ℤ) = 4 * leastError := by
    rw [leastError, show (-1073 : ℤ) = 2 + -1075 from rfl, zpow_add₀ (by norm_num)]
    norm_num
  have positive : 0 < leastError := two_zpow_pos _
  rw [least]
  generalize leastError = e at *
  rw [unitError] at *
  rw [abs_le]
  constructor <;> linarith

end ArenaAgent.Binary64
