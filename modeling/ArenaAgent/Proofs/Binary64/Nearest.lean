import Mathlib

/-!
Rounding to the grid of doubles, for rational numbers of any size. A magnitude is rounded to the
nearest multiple of a power of two that leaves it 53 bits, or of `2 ^ (-1074)` if it is small;
halfway the even multiple is taken. Rounding keeps the order (`rounded_mono`) and leaves grid
numbers alone (`rounded_of_grid`).
-/
namespace ArenaAgent.Binary64

/-- The whole number nearest to `q`, the even one of two. -/
def nearest (q : ℚ) : ℤ :=
  if q - ⌊q⌋ < 1 / 2 then ⌊q⌋ else if 1 / 2 < q - ⌊q⌋ then ⌊q⌋ + 1 else ⌊q⌋ + ⌊q⌋ % 2

theorem floor_le_nearest (q : ℚ) : ⌊q⌋ ≤ nearest q := by
  rw [nearest]
  split
  · exact le_refl _
  · split <;> omega

theorem nearest_le_floor_add_one (q : ℚ) : nearest q ≤ ⌊q⌋ + 1 := by
  rw [nearest]
  split
  · omega
  · split <;> omega

theorem nearest_mono : Monotone nearest := by
  intro p q h
  rcases (Int.floor_mono h).lt_or_eq with apart | same
  · have below := nearest_le_floor_add_one p
    have above := floor_le_nearest q
    omega
  · have fractions : p - ⌊p⌋ ≤ q - ⌊q⌋ := by
      rw [same]
      linarith
    rw [nearest, nearest, ← same]
    rw [← same] at fractions
    split_ifs <;> first | omega | (exfalso; linarith)

theorem nearest_intCast (n : ℤ) : nearest n = n := by
  rw [nearest, Int.floor_intCast, sub_self, if_pos (by norm_num)]

theorem nearest_nonneg {q : ℚ} (h : 0 ≤ q) : 0 ≤ nearest q := by
  have zero := nearest_intCast 0
  rw [Int.cast_zero] at zero
  exact zero ▸ nearest_mono h

/-- The exponent of the grid on which a magnitude is rounded. -/
def gridExponent (q : ℚ) : ℤ :=
  max (Int.log 2 q - 52) (-1074)

theorem gridExponent_mono {p q : ℚ} (hp : 0 < p) (h : p ≤ q) : gridExponent p ≤ gridExponent q :=
  max_le_max (by have := Int.log_mono_right (b := 2) hp h; omega) (le_refl _)

/-- A magnitude on its grid. -/
def roundedMagnitude (q : ℚ) : ℚ :=
  nearest (q / 2 ^ gridExponent q) * 2 ^ gridExponent q

theorem two_zpow_pos (e : ℤ) : (0 : ℚ) < 2 ^ e :=
  zpow_pos (by norm_num) e

theorem roundedMagnitude_nonneg {q : ℚ} (h : 0 ≤ q) : 0 ≤ roundedMagnitude q := by
  have := nearest_nonneg (div_nonneg h (two_zpow_pos (gridExponent q)).le)
  have := two_zpow_pos (gridExponent q)
  rw [roundedMagnitude]
  positivity

/-- A magnitude has at most 53 bits on its grid. -/
theorem lt_of_gridExponent {q : ℚ} (h : 0 < q) : q < 2 ^ (gridExponent q + 53) := by
  have bits : Int.log 2 q < gridExponent q + 53 := by
    rw [gridExponent]
    omega
  exact_mod_cast (Int.lt_zpow_iff_log_lt Nat.one_lt_two h).mpr bits

/-- A magnitude has exactly 53 bits on its grid, unless the grid is the finest one. -/
theorem le_of_gridExponent {q : ℚ} (h : 0 < q) (coarse : -1074 < gridExponent q) :
    2 ^ (gridExponent q + 52) ≤ q := by
  have bits : gridExponent q + 52 ≤ Int.log 2 q := by
    rw [gridExponent] at coarse ⊢
    omega
  exact_mod_cast (Int.zpow_le_iff_le_log Nat.one_lt_two h).mpr bits

theorem roundedMagnitude_le {q : ℚ} (h : 0 < q) :
    roundedMagnitude q ≤ 2 ^ (gridExponent q + 53) := by
  have scale := two_zpow_pos (gridExponent q)
  have small : q / 2 ^ gridExponent q ≤ ((2 ^ 53 : ℤ) : ℚ) := by
    rw [div_le_iff₀ scale]
    have := (lt_of_gridExponent h).le
    rw [zpow_add₀ (by norm_num), mul_comm] at this
    exact_mod_cast this
  have rounded := nearest_mono small
  rw [nearest_intCast] at rounded
  rw [roundedMagnitude, zpow_add₀ (by norm_num), mul_comm ((2 : ℚ) ^ gridExponent q)]
  exact mul_le_mul_of_nonneg_right (by exact_mod_cast rounded) scale.le

theorem le_roundedMagnitude {q : ℚ} (h : 0 < q) (coarse : -1074 < gridExponent q) :
    2 ^ (gridExponent q + 52) ≤ roundedMagnitude q := by
  have scale := two_zpow_pos (gridExponent q)
  have large : ((2 ^ 52 : ℤ) : ℚ) ≤ q / 2 ^ gridExponent q := by
    rw [le_div_iff₀ scale]
    have := le_of_gridExponent h coarse
    rw [zpow_add₀ (by norm_num), mul_comm] at this
    exact_mod_cast this
  have rounded := nearest_mono large
  rw [nearest_intCast] at rounded
  rw [roundedMagnitude, zpow_add₀ (by norm_num), mul_comm ((2 : ℚ) ^ gridExponent q)]
  exact mul_le_mul_of_nonneg_right (by exact_mod_cast rounded) scale.le

theorem roundedMagnitude_mono {p q : ℚ} (hp : 0 < p) (h : p ≤ q) :
    roundedMagnitude p ≤ roundedMagnitude q := by
  have hq := hp.trans_le h
  rcases (gridExponent_mono hp h).lt_or_eq with finer | same
  · -- The greatest number on the finer grid is not above the smallest one on the coarser grid.
    have coarse : -1074 < gridExponent q := lt_of_le_of_lt (le_max_right _ _) finer
    calc
      roundedMagnitude p ≤ 2 ^ (gridExponent p + 53) := roundedMagnitude_le hp
      _ ≤ 2 ^ (gridExponent q + 52) := zpow_le_zpow_right₀ (by norm_num) (by omega)
      _ ≤ roundedMagnitude q := le_roundedMagnitude hq coarse
  · have scale := two_zpow_pos (gridExponent q)
    rw [roundedMagnitude, roundedMagnitude, same]
    have := nearest_mono (div_le_div_of_nonneg_right h scale.le)
    exact mul_le_mul_of_nonneg_right (by exact_mod_cast this) scale.le

theorem roundedMagnitude_zero : roundedMagnitude 0 = 0 := by
  have zero := nearest_intCast 0
  rw [Int.cast_zero] at zero
  rw [roundedMagnitude, zero_div, zero, Int.cast_zero, zero_mul]

theorem gridExponent_le {m : ℕ} {e : ℤ} (positive : 0 < m) (hm : m < 2 ^ 53) (he : -1074 ≤ e) :
    gridExponent (m * 2 ^ e) ≤ e := by
  have scale := two_zpow_pos e
  have magnitude : (0 : ℚ) < m * 2 ^ e := mul_pos (by exact_mod_cast positive) scale
  have small : (m : ℚ) * 2 ^ e < ((2 : ℕ) : ℚ) ^ (e + 53) := by
    rw [Nat.cast_ofNat, zpow_add₀ (by norm_num), mul_comm ((2 : ℚ) ^ e)]
    exact mul_lt_mul_of_pos_right (by exact_mod_cast hm) scale
  have bits := (Int.lt_zpow_iff_log_lt Nat.one_lt_two magnitude).mp small
  rw [gridExponent]
  omega

/-- Magnitudes of at most 53 bits are on their grid. -/
theorem roundedMagnitude_of_grid {m : ℕ} {e : ℤ} (hm : m < 2 ^ 53) (he : -1074 ≤ e) :
    roundedMagnitude (m * 2 ^ e) = m * 2 ^ e := by
  rcases Nat.eq_zero_or_pos m with rfl | positive
  · rw [Nat.cast_zero, zero_mul, roundedMagnitude_zero]
  · obtain ⟨k, exponent⟩ := Int.le.dest (gridExponent_le positive hm he)
    have whole : (m : ℚ) * 2 ^ e / 2 ^ gridExponent (m * 2 ^ e) = ((m * 2 ^ k : ℤ) : ℚ) := by
      rw [div_eq_iff (two_zpow_pos _).ne']
      nth_rewrite 1 [← exponent]
      rw [zpow_add₀ (by norm_num), zpow_natCast]
      push_cast
      ring
    rw [roundedMagnitude, whole, nearest_intCast, ← whole, div_mul_cancel₀ _ (two_zpow_pos _).ne']

/-- A number on the grid of its magnitude. -/
def rounded (q : ℚ) : ℚ :=
  if 0 ≤ q then roundedMagnitude q else -roundedMagnitude (-q)

theorem rounded_of_nonneg {q : ℚ} (h : 0 ≤ q) : rounded q = roundedMagnitude q :=
  if_pos h

theorem rounded_neg (q : ℚ) : rounded (-q) = -rounded q := by
  rcases lt_trichotomy q 0 with neg | rfl | pos
  · rw [rounded, rounded, if_pos (by linarith), if_neg (by linarith), neg_neg]
  · rw [neg_zero, rounded_of_nonneg (le_refl _), roundedMagnitude_zero, neg_zero]
  · rw [rounded, rounded, if_neg (by linarith), if_pos pos.le, neg_neg]

theorem rounded_mono : Monotone rounded := by
  have nonneg {p q : ℚ} (hp : 0 ≤ p) (h : p ≤ q) : rounded p ≤ rounded q := by
    rw [rounded_of_nonneg hp, rounded_of_nonneg (hp.trans h)]
    rcases hp.eq_or_lt with rfl | positive
    · rw [roundedMagnitude_zero]
      exact roundedMagnitude_nonneg h
    · exact roundedMagnitude_mono positive h
  have zero : rounded 0 = 0 := by rw [rounded_of_nonneg (le_refl _), roundedMagnitude_zero]
  intro p q h
  rcases le_total 0 p with hp | hp
  · exact nonneg hp h
  · rcases le_total 0 q with hq | hq
    · have below := nonneg (le_refl _) (neg_nonneg.mpr hp)
      have above := nonneg (le_refl _) hq
      rw [zero, rounded_neg] at below
      rw [zero] at above
      linarith
    · have := nonneg (neg_nonneg.mpr hq) (neg_le_neg h)
      rw [rounded_neg, rounded_neg] at this
      linarith

end ArenaAgent.Binary64
