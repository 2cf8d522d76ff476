import ArenaAgent.Proofs.Binary64.Lawful

/-!
Quotients of doubles. Division cuts the quotient off where the grid cannot tell the difference, and
keeps how the rest compares with one half; so a quotient, too, is the exact one on the grid.
-/
namespace ArenaAgent.Binary64

open Float.Model (UnpackedFloat Format totalExponent)
open Float.Model.UnpackedFloat

/-- The whole part of a quotient and the place of the remainder stand for the quotient. -/
theorem represents_quotient (n : ℕ) {d : ℕ} (hd : 0 < d) :
    Represents (.ofMantissaAndAccuracy (n / d) (accuracyOfFraction (n % d) d)) (n / d : ℚ) := by
  have divisor : (0 : ℚ) < d := by exact_mod_cast hd
  have rest : ((n % d : ℕ) : ℚ) < d := by exact_mod_cast Nat.mod_lt n hd
  have nonneg : (0 : ℚ) ≤ (n % d : ℕ) := Nat.cast_nonneg _
  have parts : (n : ℚ) = (n / d : ℕ) * d + (n % d : ℕ) := by
    exact_mod_cast (Nat.div_add_mod' n d).symm
  generalize n / d = q at *
  generalize n % d = r at *
  have quotient : (n : ℚ) / d = q + r / d := by
    rw [parts]
    field_simp
  rw [quotient, accuracyOfFraction]
  split
  · rename_i zero
    rw [zero, Nat.cast_zero, zero_div, add_zero]
    exact represents_exact q
  · rename_i some
    have positive : (0 : ℚ) < r / d := div_pos (by exact_mod_cast Nat.pos_of_ne_zero some) divisor
    have below : (r : ℚ) / d < 1 := (div_lt_one divisor).mpr rest
    rcases lt_trichotomy (2 * r) d with less | half | more
    · have place : (r : ℚ) / d < 1 / 2 := by
        rw [div_lt_div_iff₀ divisor (by norm_num)]
        have : (2 : ℚ) * r < d := by exact_mod_cast less
        linarith
      rw [compare_lt_iff_lt.mpr less]
      constructor <;> simp only [ExtendedMantissa.ofMantissaAndAccuracy]
      · linarith
      · linarith
      · simpa using place
      · exact ⟨fun _ => ⟨by linarith, by linarith⟩, fun _ => trivial⟩
    · have place : (r : ℚ) / d = 1 / 2 := by
        rw [div_eq_div_iff divisor.ne' (by norm_num)]
        have : (2 : ℚ) * r = d := by exact_mod_cast half
        linarith
      rw [compare_eq_iff_eq.mpr half, place]
      constructor <;> simp only [ExtendedMantissa.ofMantissaAndAccuracy]
      · linarith
      · linarith
      · simp
      · simp
    · have place : 1 / 2 < (r : ℚ) / d := by
        rw [div_lt_div_iff₀ (by norm_num) divisor]
        have : (d : ℚ) < 2 * r := by exact_mod_cast more
        linarith
      rw [compare_gt_iff_gt.mpr more]
      constructor <;> simp only [ExtendedMantissa.ofMantissaAndAccuracy]
      · linarith
      · linarith
      · simpa using place.le
      · exact ⟨fun _ => ⟨by linarith, by linarith⟩, fun _ => trivial⟩

/-- The exponent at which division cuts off is not above the grid of the quotient. -/
theorem targetExponent_le_gridExponent_div {m n : ℕ} {e f : ℤ} (hm : 0 < m) (hn : 0 < n) :
    Format.binary64.targetExponent (totalExponent m e - totalExponent n f) ≤
      gridExponent (m * 2 ^ e / (n * 2 ^ f)) := by
  have dividend : (0 : ℚ) < m * 2 ^ e := mul_pos (by exact_mod_cast hm) (two_zpow_pos e)
  have divisor : (0 : ℚ) < n * 2 ^ f := mul_pos (by exact_mod_cast hn) (two_zpow_pos f)
  have lower := Int.zpow_log_le_self Nat.one_lt_two dividend
  have upper := Int.lt_zpow_succ_log_self Nat.one_lt_two ((n : ℚ) * 2 ^ f)
  rw [log_magnitude hm] at lower
  rw [log_magnitude hn] at upper
  have reached :
      (Nat.log2 m + e) - (Nat.log2 n + f + 1) ≤ Int.log 2 ((m : ℚ) * 2 ^ e / (n * 2 ^ f)) := by
    rw [← Int.zpow_le_iff_le_log Nat.one_lt_two (div_pos dividend divisor), zpow_sub₀ (by norm_num)]
    exact div_le_div₀ dividend.le lower divisor upper.le
  rw [gridExponent]
  simp only [Format.targetExponent, totalExponent, Format.mantissaBits, Format.minExponent]
  norm_num
  omega

theorem signed_div (s s' : Sign) (p q : ℚ) :
    signed (s / s') (p / q) = signed s p / signed s' q := by
  cases s <;> cases s'
  · exact (neg_div_neg_eq p q).symm
  · exact (neg_div q p).symm
  · exact (div_neg p).symm
  · rfl

theorem gives_div {u v : UnpackedFloat} (finite : u.isFinite = true) (finite' : v.isFinite = true)
    (nonzero : unpackedValue v ≠ 0) :
    Gives (UnpackedFloat.div Format.binary64 u v) (unpackedValue u / unpackedValue v) := by
  cases v with
  | infinity | notANumber => cases finite'
  | zero s' => exact absurd rfl nonzero
  | finite s' n f hn =>
    cases u with
    | infinity | notANumber => cases finite
    | zero s =>
      rw [show unpackedValue (.zero s) = 0 from rfl, zero_div]
      exact Gives.self (u := .zero _) trivial rfl
    | finite s m e hm =>
      have fine := targetExponent_le_gridExponent_div (e := e) (f := f) hm hn
      generalize ht : Format.binary64.targetExponent (totalExponent m e - totalExponent n f) =
        t at fine
      obtain ⟨k, hk⟩ := Int.le.dest (min_le_left (e - f) t)
      have amount : (e - f - min (e - f) t).toNat = k := by omega
      have magnitude : ((m <<< k : ℕ) : ℚ) / n * 2 ^ min (e - f) t = m * 2 ^ e / (n * 2 ^ f) := by
        have split : (2 : ℚ) ^ e = 2 ^ min (e - f) t * 2 ^ k * 2 ^ f := by
          rw [← zpow_natCast (2 : ℚ) k, ← zpow_add₀ (by norm_num), ← zpow_add₀ (by norm_num), hk,
            sub_add_cancel]
        have := (two_zpow_pos f).ne'
        rw [Nat.shiftLeft_eq, split]
        push_cast
        field_simp
      have positive : (0 : ℚ) < (m <<< k : ℕ) / n := by
        rw [Nat.shiftLeft_eq]
        positivity
      have quotient :=
        roundWithAccuracy_of_represents (s / s') positive (represents_quotient (m <<< k) hn)
          (e := min (e - f) t) (by rw [magnitude]; exact (min_le_right _ _).trans fine)
      rw [magnitude,
        ← rounded_signed _ (div_nonneg (mul_nonneg (Nat.cast_nonneg m) (two_zpow_pos e).le)
        (mul_nonneg (Nat.cast_nonneg n) (two_zpow_pos f).le)), signed_div] at quotient
      simp only [UnpackedFloat.div, divCore, ht, amount]
      exact ⟨quotient.1, quotient.2, (hasSign_roundWithAccuracy ..).number⟩

variable {x y : Float}

theorem value_div (hx : IsFinite x) (hy : IsFinite y) (nonzero : value y ≠ 0) :
    IsNumber (x / y) ∧ value (x / y) = clip (rounded (value x / value y)) :=
  value_of_gives (gives_div hx hy nonzero)

end ArenaAgent.Binary64
