import ArenaAgent.Proofs.Binary64.Nearest

/-!
The rounding of doubles, as the arithmetic of doubles does it by shifting mantissas, is
rounding to the grid.
-/
namespace ArenaAgent.Binary64

open Float.Model (UnpackedFloat Format totalExponent)
open Float.Model.UnpackedFloat

/-! ## Shifted mantissas -/

/-- A mantissa with two residual bits stands for `x`: the first bit tells whether the fraction of
`x` reaches one half, and the second one whether there is more to it. -/
structure Represents (em : ExtendedMantissa) (x : ℚ) : Prop where
  nonneg : em.mantissa ≤ x
  lt_one : x < em.mantissa + 1
  round : em.roundBit = true ↔ em.mantissa + 1 / 2 ≤ x
  sticky : em.stickyBit = true ↔ x ≠ em.mantissa ∧ x ≠ em.mantissa + 1 / 2

theorem represents_exact (m : ℕ) : Represents (.ofMantissaAndAccuracy m .exact) m := by
  constructor <;> simp [ExtendedMantissa.ofMantissaAndAccuracy]

/-- Without residual bits a mantissa stands for itself alone. -/
theorem Represents.residue {em : ExtendedMantissa} {x : ℚ} (h : Represents em x) :
    (em.roundBit || em.stickyBit) = true ↔ x ≠ em.mantissa := by
  rw [Bool.or_eq_true, h.round, h.sticky]
  constructor
  · rintro (half | more) e
    · rw [e] at half
      linarith
    · exact more.1 e
  · intro other
    by_cases half : x = em.mantissa + 1 / 2
    · exact .inl half.ge
    · exact .inr ⟨other, half⟩

theorem Represents.shiftRightOne {em : ExtendedMantissa} {x : ℚ} (h : Represents em x) :
    Represents em.shiftRightOne (x / 2) := by
  have residue := h.residue
  have nonneg := h.nonneg
  have lt_one := h.lt_one
  rcases em with ⟨m, r, s⟩
  obtain ⟨k, rfl | rfl⟩ := Nat.even_or_odd' m
  · have halved : 2 * k / 2 = k := by omega
    have even : 2 * k % 2 = 0 := by omega
    push_cast at nonneg lt_one residue
    constructor
    · simp only [ExtendedMantissa.shiftRightOne, halved]
      linarith
    · simp only [ExtendedMantissa.shiftRightOne, halved]
      linarith
    · simp only [ExtendedMantissa.shiftRightOne, halved, even]
      constructor
      · intro odd
        cases odd
      · intro half
        linarith
    · simp only [ExtendedMantissa.shiftRightOne, halved, residue]
      constructor
      · intro other
        exact ⟨fun e => other (by linarith), fun e => by linarith⟩
      · intro other e
        exact other.1 (by linarith)
  · have halved : (2 * k + 1) / 2 = k := by omega
    have odd : (2 * k + 1) % 2 = 1 := by omega
    push_cast at nonneg lt_one residue
    constructor
    · simp only [ExtendedMantissa.shiftRightOne, halved]
      linarith
    · simp only [ExtendedMantissa.shiftRightOne, halved]
      linarith
    · simp only [ExtendedMantissa.shiftRightOne, halved, odd]
      exact ⟨fun _ => by linarith, fun _ => rfl⟩
    · simp only [ExtendedMantissa.shiftRightOne, halved, residue]
      constructor
      · intro other
        exact ⟨fun e => by linarith, fun e => other (by linarith)⟩
      · intro other e
        exact other.2 (by linarith)

theorem Represents.shiftRight {em : ExtendedMantissa} {x : ℚ} (h : Represents em x) (k : ℕ) :
    Represents (em >>> k) (x / 2 ^ k) := by
  induction k with
  | zero =>
    rw [pow_zero, div_one]
    exact h
  | succ k ih =>
    rw [pow_succ, ← div_div]
    exact ih.shiftRightOne

theorem Represents.roundedMantissa {em : ExtendedMantissa} {x : ℚ} (h : Represents em x) :
    (em.roundedMantissa : ℤ) = nearest x := by
  obtain ⟨nonneg, lt_one, round, sticky⟩ := h
  rcases em with ⟨m, r, s⟩
  have floor : ⌊x⌋ = (m : ℤ) :=
    Int.floor_eq_iff.mpr ⟨by exact_mod_cast nonneg, by exact_mod_cast lt_one⟩
  rw [nearest, floor, Int.cast_natCast]
  cases r with
  | false =>
    have below : x - m < 1 / 2 := by
      have := mt round.mpr Bool.false_ne_true
      simp only at this
      linarith
    rw [if_pos below]
    cases s <;> rfl
  | true =>
    have above := round.mp rfl
    simp only at above
    rw [if_neg (by linarith)]
    cases s with
    | false =>
      have middle : ¬ 1 / 2 < x - m := by
        intro more
        exact Bool.false_ne_true (sticky.mpr ⟨fun e => by simp only at e; linarith,
          fun e => by simp only at e; linarith⟩)
      rw [if_neg middle]
      exact_mod_cast rfl
    | true =>
      have beyond : 1 / 2 < x - m := by
        have := (sticky.mp rfl).2
        simp only at this
        rcases above.lt_or_eq with more | e
        · linarith
        · exact absurd e.symm this
      rw [if_pos beyond]
      rfl

/-! ## The target exponent -/

theorem log_magnitude {m : ℕ} (h : 0 < m) (e : ℤ) :
    Int.log 2 ((m : ℚ) * 2 ^ e) = Nat.log2 m + e := by
  have scale := two_zpow_pos e
  have positive : (0 : ℚ) < m * 2 ^ e := mul_pos (by exact_mod_cast h) scale
  have lower : Nat.log2 m + e ≤ Int.log 2 ((m : ℚ) * 2 ^ e) := by
    rw [← Int.zpow_le_iff_le_log Nat.one_lt_two positive, Nat.cast_ofNat, zpow_add₀ (by norm_num),
      zpow_natCast]
    exact mul_le_mul_of_nonneg_right (by exact_mod_cast Nat.log2_self_le h.ne') scale.le
  have upper : Int.log 2 ((m : ℚ) * 2 ^ e) < Nat.log2 m + 1 + e := by
    rw [← Int.lt_zpow_iff_log_lt Nat.one_lt_two positive, Nat.cast_ofNat, zpow_add₀ (by norm_num)]
    exact mul_lt_mul_of_pos_right (by exact_mod_cast Nat.lt_log2_self) scale
  omega

/-- The exponent to which mantissas are shifted is that of the grid. -/
theorem targetExponent_eq {m : ℕ} (h : 0 < m) (e : ℤ) :
    Format.binary64.targetExponent (totalExponent m e) = gridExponent (m * 2 ^ e) := by
  rw [gridExponent, log_magnitude h e]
  simp only [Format.targetExponent, totalExponent, Format.mantissaBits, Format.minExponent]
  norm_num
  omega

/-- The fraction beyond a mantissa does not change the grid. -/
theorem targetExponent_of_represents {em : ExtendedMantissa} {x : ℚ} {e : ℤ} (positive : 0 < x)
    (h : Represents em x) (fine : e ≤ gridExponent (x * 2 ^ e)) :
    Format.binary64.targetExponent (totalExponent em.mantissa e) = gridExponent (x * 2 ^ e) := by
  have scale := two_zpow_pos e
  have magnitude := mul_pos positive scale
  rcases Nat.eq_zero_or_pos em.mantissa with none | some
  · have small : x * 2 ^ e < ((2 : ℕ) : ℚ) ^ e := by
      have below := h.lt_one
      rw [none, Nat.cast_zero, zero_add] at below
      exact_mod_cast mul_lt_of_lt_one_left scale below
    have log := (Int.lt_zpow_iff_log_lt Nat.one_lt_two magnitude).mp small
    rw [gridExponent] at fine ⊢
    rw [none]
    simp only [Format.targetExponent, totalExponent, Format.mantissaBits, Format.minExponent]
    norm_num
    omega
  · rw [targetExponent_eq some e]
    have lower : (em.mantissa : ℚ) * 2 ^ e ≤ x * 2 ^ e :=
      mul_le_mul_of_nonneg_right h.nonneg scale.le
    refine le_antisymm (gridExponent_mono (mul_pos (by exact_mod_cast some) scale) lower) ?_
    -- A power of two that `x` reaches is reached by the whole number below it.
    have reached := log_magnitude some e
    have upper : Int.log 2 (x * 2 ^ e) < Nat.log2 em.mantissa + 1 + e := by
      rw [← Int.lt_zpow_iff_log_lt Nat.one_lt_two magnitude, Nat.cast_ofNat,
        zpow_add₀ (by norm_num)]
      have whole : ((em.mantissa + 1 : ℕ) : ℚ) ≤ 2 ^ (Nat.log2 em.mantissa + 1) := by
        exact_mod_cast Nat.lt_log2_self
      push_cast at whole
      exact mul_lt_mul_of_pos_right (h.lt_one.trans_le (by exact_mod_cast whole)) scale
    exact max_le_max (by omega) (le_refl _)

/-- A mantissa that was shifted to the grid from a finer exponent. -/
theorem shiftToTargetExponent_spec {m : ℕ} {a : Accuracy} {x : ℚ} {e : ℤ} (positive : 0 < x)
    (h : Represents (.ofMantissaAndAccuracy m a) x) (fine : e ≤ gridExponent (x * 2 ^ e)) :
    let first := shiftToTargetExponent Format.binary64 m e a
    first.2 = gridExponent (x * 2 ^ e) ∧
      Represents first.1 (x * 2 ^ e / 2 ^ gridExponent (x * 2 ^ e)) := by
  have mantissa : (ExtendedMantissa.ofMantissaAndAccuracy m a).mantissa = m := by
    cases a with
    | exact => rfl
    | inexact o => cases o <;> rfl
  have target := targetExponent_of_represents positive h fine
  rw [mantissa] at target
  simp only [shiftToTargetExponent, shiftToExponent, target]
  obtain ⟨k, exponent⟩ := Int.le.dest fine
  have amount : (gridExponent (x * 2 ^ e) - e).toNat = k := by omega
  rw [amount]
  refine ⟨exponent, ?_⟩
  have shifted := h.shiftRight k
  have same : x * 2 ^ e / 2 ^ gridExponent (x * 2 ^ e) = x / 2 ^ k := by
    rw [← exponent, zpow_add₀ (by norm_num), zpow_natCast]
    field_simp
  rw [same]
  exact shifted

/-! ## The value of a rounded number -/

/-- A magnitude with a sign. -/
def signed : Sign → ℚ → ℚ
  | .positive, q => q
  | .negative, q => -q

/-- The number that would come after the greatest double. -/
def limit : ℚ := 2 ^ 1024

/-- The number for which an unpacked double stands. An infinity stands for the limit, so that the
order of values is the order of doubles. -/
def unpackedValue : UnpackedFloat → ℚ
  | .finite s m e _ => signed s (m * 2 ^ e)
  | .infinity s => signed s limit
  | .zero _ | .notANumber => 0

/-- On its grid, as packed doubles are; the exponent may be too great for packing. -/
def Canonical : UnpackedFloat → Prop
  | .finite _ m e _ => m < 2 ^ 53 ∧ -1074 ≤ e ∧ (2 ^ 52 ≤ m ∨ e = -1074)
  | _ => True

/-- A mantissa that fits needs no further shift. -/
theorem shiftToTargetExponent_of_lt {r : ℕ} {e : ℤ} (hr : r < 2 ^ 53) (he : -1074 ≤ e) :
    shiftToTargetExponent Format.binary64 r e .exact = (⟨r, false, false⟩, e) := by
  have target : Format.binary64.targetExponent (totalExponent r e) ≤ e := by
    rcases Nat.eq_zero_or_pos r with rfl | positive
    · simp only [Format.targetExponent, totalExponent, Format.mantissaBits, Format.minExponent]
      norm_num
      omega
    · rw [targetExponent_eq positive]
      exact gridExponent_le positive hr he
  have none : (Format.binary64.targetExponent (totalExponent r e) - e).toNat = 0 := by omega
  simp only [shiftToTargetExponent, shiftToExponent, none]
  exact Prod.ext rfl (add_zero e)

/-- A mantissa that was rounded up to 54 bits loses its last one, which is zero. -/
theorem shiftToTargetExponent_of_carry {e : ℤ} (he : -1074 ≤ e) :
    shiftToTargetExponent Format.binary64 (2 ^ 53) e .exact = (⟨2 ^ 52, false, false⟩, e + 1) := by
  have target : Format.binary64.targetExponent (totalExponent (2 ^ 53) e) = e + 1 := by
    simp only [Format.targetExponent, totalExponent, Format.mantissaBits, Format.minExponent,
      Nat.log2_two_pow]
    norm_num
    omega
  have one : (Format.binary64.targetExponent (totalExponent (2 ^ 53) e) - e).toNat = 1 := by omega
  simp only [shiftToTargetExponent, shiftToExponent, one]
  rfl

/-- Zero or a finite number, of this sign. -/
inductive HasSign (s : Sign) : UnpackedFloat → Prop
  | zero : HasSign s (.zero s)
  | finite (m : ℕ) (e : ℤ) (hm : 0 < m) : HasSign s (.finite s m e hm)

theorem hasSign_roundWithAccuracy (s : Sign) (m : ℕ) (e : ℤ) (a : Accuracy) :
    HasSign s (roundWithAccuracy Format.binary64 s m e a) := by
  simp only [roundWithAccuracy]
  split
  · exact .zero
  · exact .finite ..

/-- Rounding gives the grid number nearest to what a mantissa stands for. -/
theorem roundWithAccuracy_of_represents (s : Sign) {m : ℕ} {a : Accuracy} {x : ℚ} {e : ℤ}
    (positive : 0 < x) (h : Represents (.ofMantissaAndAccuracy m a) x)
    (fine : e ≤ gridExponent (x * 2 ^ e)) :
    let u := roundWithAccuracy Format.binary64 s m e a
    unpackedValue u = signed s (roundedMagnitude (x * 2 ^ e)) ∧ Canonical u := by
  obtain ⟨exponent, represents⟩ := shiftToTargetExponent_spec positive h fine
  replace positive : 0 < x * 2 ^ e := mul_pos positive (two_zpow_pos e)
  generalize hq : x * 2 ^ e = q at *
  have finest : -1074 ≤ gridExponent q := le_max_right _ _
  have scale := two_zpow_pos (gridExponent q)
  rcases shift : shiftToTargetExponent Format.binary64 m e a with ⟨em, e₁⟩
  rw [shift] at exponent represents
  simp only at exponent represents
  subst exponent
  have mantissa : roundedMagnitude q = em.roundedMantissa * 2 ^ gridExponent q := by
    rw [roundedMagnitude, ← represents.roundedMantissa, Int.cast_natCast]
  have upper : em.roundedMantissa ≤ 2 ^ 53 := by
    have bound := roundedMagnitude_le positive
    rw [mantissa, zpow_add₀ (by norm_num), mul_comm ((2 : ℚ) ^ gridExponent q)] at bound
    exact_mod_cast le_of_mul_le_mul_right bound scale
  have normal : 2 ^ 52 ≤ em.roundedMantissa ∨ gridExponent q = -1074 := by
    rcases finest.lt_or_eq with coarse | same
    · have bound := le_roundedMagnitude positive coarse
      rw [mantissa, zpow_add₀ (by norm_num), mul_comm ((2 : ℚ) ^ gridExponent q)] at bound
      exact .inl (by exact_mod_cast le_of_mul_le_mul_right bound scale)
    · exact .inr same.symm
  rw [mantissa]
  simp only [roundWithAccuracy, shift]
  rcases upper.lt_or_eq with small | carry
  · simp only [shiftToTargetExponent_of_lt small finest]
    split
    · rename_i zero
      rw [zero]
      cases s <;> simp [unpackedValue, signed, Canonical]
    · exact ⟨rfl, small, finest, normal⟩
  · simp only [carry, shiftToTargetExponent_of_carry finest]
    rw [dif_neg (by norm_num)]
    refine ⟨?_, by norm_num, by omega, .inl (le_refl _)⟩
    have same : ((2 ^ 52 : ℕ) : ℚ) * 2 ^ (gridExponent q + 1) =
        ((2 ^ 53 : ℕ) : ℚ) * 2 ^ gridExponent q := by
      rw [zpow_add₀ (by norm_num)]
      push_cast
      ring
    rw [unpackedValue, same]

/-- Rounding a mantissa gives the grid number nearest to it. -/
theorem roundWithAccuracy_spec (s : Sign) {m : ℕ} (h : 0 < m) {e : ℤ}
    (fine : e ≤ gridExponent (m * 2 ^ e)) :
    let u := roundWithAccuracy Format.binary64 s m e .exact
    unpackedValue u = signed s (roundedMagnitude (m * 2 ^ e)) ∧ Canonical u :=
  roundWithAccuracy_of_represents s (by exact_mod_cast h) (represents_exact m) fine

/-- A mantissa of any exponent is first written with one that is fine enough. -/
theorem round_spec (s : Sign) {m : ℕ} (h : 0 < m) (e : ℤ) :
    let u := UnpackedFloat.round Format.binary64 s m e
    unpackedValue u = signed s (roundedMagnitude (m * 2 ^ e)) ∧ Canonical u := by
  simp only [UnpackedFloat.round, decreaseExponent, targetExponent_eq h]
  obtain ⟨k, hk⟩ : ∃ k : ℕ, (e - gridExponent (m * 2 ^ e)).toNat = k := ⟨_, rfl⟩
  have same : ((m <<< k : ℕ) : ℚ) * 2 ^ (e - k) = m * 2 ^ e := by
    rw [Nat.shiftLeft_eq, zpow_sub₀ (by norm_num), zpow_natCast]
    push_cast
    field_simp
  have positive : 0 < m <<< k := by
    rw [Nat.shiftLeft_eq]
    positivity
  have spec := roundWithAccuracy_spec s positive (e := e - k) (by rw [same]; omega)
  rwa [same, ← hk] at spec

/-- A whole number with a binary exponent, of either sign. -/
theorem normalize_spec (n e : ℤ) (zeroSign : Sign) :
    let u := UnpackedFloat.normalize Format.binary64 n e zeroSign
    unpackedValue u = rounded (n * 2 ^ e) ∧ Canonical u := by
  have scale := two_zpow_pos e
  rcases lt_trichotomy n 0 with neg | rfl | pos
  · have compared : compare n 0 = .lt := by rwa [compare_lt_iff_lt]
    obtain ⟨m, hm⟩ := Int.eq_ofNat_of_zero_le (neg_nonneg.mpr neg.le)
    have magnitude : -((n : ℚ) * 2 ^ e) = m * 2 ^ e := by
      rw [← neg_mul]
      congr 1
      exact_mod_cast hm
    have negative : (n : ℚ) * 2 ^ e < 0 := mul_neg_of_neg_of_pos (by exact_mod_cast neg) scale
    have spec := round_spec .negative (m := m) (by omega) e
    simp only [UnpackedFloat.normalize, compared, hm, Int.toNat_natCast]
    rw [rounded, if_neg (not_le.mpr negative), magnitude]
    exact spec
  · simp [UnpackedFloat.normalize, unpackedValue, Canonical, rounded, roundedMagnitude_zero]
  · have compared : compare n 0 = .gt := by rwa [compare_gt_iff_gt]
    obtain ⟨m, rfl⟩ := Int.eq_ofNat_of_zero_le pos.le
    have spec := round_spec .positive (m := m) (by omega) e
    simp only [UnpackedFloat.normalize, compared, Int.toNat_natCast]
    rw [rounded_of_nonneg (by positivity)]
    exact spec

end ArenaAgent.Binary64
