import ArenaAgent.Json.Number
import ArenaAgent.Proofs.Binary64.Errors

/-!
The double that a JSON number reads as. Digits and powers of ten become doubles before they are
multiplied or divided, so the double read need not be the nearest one; it is (`magnitude_of_short`)
if the digits and the power are doubles themselves.
-/
namespace ArenaAgent.Json

open ArenaAgent.Binary64
open Float.Model (UnpackedFloat Format)
open Float.Model.UnpackedFloat

/-! ## What a number stands for -/

namespace Numeral

/-- All digits of a number as one whole number. -/
def digits (n : Numeral) : ℕ :=
  valueOf (n.whole ++ n.fraction)

/-- The exponent of the power of ten by which the digits are multiplied. -/
def scale (n : Numeral) : ℤ :=
  n.exponent.getD 0 - n.fraction.length

/-- What a number stands for, but for its sign. -/
def amount (n : Numeral) : ℚ :=
  n.digits * 10 ^ n.scale

end Numeral

/-- Digits put behind a whole number. -/
def gathered (s : ℕ) (ds : List ℕ) : ℕ :=
  ds.foldl (fun n d => 10 * n + d) s

theorem le_gathered (s : ℕ) (ds : List ℕ) : s ≤ gathered s ds := by
  induction ds generalizing s with
  | nil => exact le_refl s
  | cons d ds ih => exact (by omega : s ≤ 10 * s + d).trans (ih _)

theorem gathered_append (s : ℕ) (ds es : List ℕ) :
    gathered s (ds ++ es) = gathered (gathered s ds) es :=
  List.foldl_append

theorem gatherWhole_eq {s : ℕ} {ds : List ℕ} (small : gathered s ds < UInt64.size) :
    gatherWhole s ds = (gathered s ds, 0) := by
  induction ds generalizing s with
  | nil => rfl
  | cons d ds ih =>
    have first : fits s d = true := decide_eq_true ((le_gathered _ ds).trans_lt small)
    rw [gatherWhole, if_pos first]
    exact ih small

theorem gatherFraction_eq {s : ℕ} (taken : ℕ) {ds : List ℕ} (small : gathered s ds < UInt64.size) :
    gatherFraction s taken ds = (gathered s ds, taken + ds.length) := by
  induction ds generalizing s taken with
  | nil => rfl
  | cons d ds ih =>
    have first : fits s d = true := decide_eq_true ((le_gathered _ ds).trans_lt small)
    rw [gatherFraction, if_pos first, ih _ small, List.length_cons]
    congr 1
    omega

/-- If all digits fit, none is dropped. -/
theorem magnitude_eq {n : Numeral} (small : n.digits < UInt64.size) :
    n.magnitude = if 0 ≤ n.scale then scaleUp (UInt64.ofNat n.digits).toFloat n.scale.toNat
      else some (scaleDown (UInt64.ofNat n.digits).toFloat (-n.scale).toNat) := by
  change gathered 0 (n.whole ++ n.fraction) < _ at small
  rw [gathered_append] at small
  have whole := gatherWhole_eq ((le_gathered _ _).trans_lt small)
  have fraction := gatherFraction_eq 0 small
  have digits : n.digits = gathered (gathered 0 n.whole) n.fraction :=
    gathered_append 0 n.whole n.fraction
  have scale : ((0 : ℕ) : ℤ) - ((0 + n.fraction.length : ℕ) : ℤ) + n.exponent.getD 0 = n.scale := by
    rw [Numeral.scale]
    omega
  rw [Numeral.magnitude, whole]
  simp only [fraction, scale, digits]

/-! ## Whole numbers and powers of ten as doubles -/

/-- The greatest finite double. -/
def greatestValue : ℚ := (2 ^ 53 - 1 : ℕ) * 2 ^ (971 : ℤ)

theorem greatestValue_lt_limit : greatestValue < limit :=
  magnitude_lt_limit (by norm_num) (le_refl _)

theorem roundedMagnitude_greatestValue : roundedMagnitude greatestValue = greatestValue :=
  roundedMagnitude_of_grid (by norm_num) (by norm_num)

variable {x y : Float} {q : ℚ}

/-- What is rounded from below the greatest double is finite. -/
theorem value_of_le_greatest (number : IsNumber x) (rounding : value x = clip (rounded q))
    (nonneg : 0 ≤ q) (small : q ≤ greatestValue) : IsFinite x ∧ value x = roundedMagnitude q := by
  have nonneg' := roundedMagnitude_nonneg nonneg
  have below : roundedMagnitude q < limit := by
    have := rounded_mono small
    rw [rounded_of_nonneg nonneg, rounded_of_nonneg (nonneg.trans small),
      roundedMagnitude_greatestValue] at this
    exact this.trans_lt greatestValue_lt_limit
  have unclipped : value x = roundedMagnitude q := by
    rw [rounding, rounded_of_nonneg nonneg,
      clip_of_abs_le (by rw [abs_of_nonneg nonneg']; exact below.le)]
  refine ⟨isFinite_iff.mpr ⟨number, ?_⟩, unclipped⟩
  rw [unclipped, abs_of_nonneg nonneg']
  exact below

/-- A finite double was not clipped. -/
theorem value_of_finite (finite : IsFinite x) (rounding : value x = clip (rounded q))
    (nonneg : 0 ≤ q) : value x = roundedMagnitude q := by
  have bound := (isFinite_iff.mp finite).2
  have nonneg' := roundedMagnitude_nonneg nonneg
  rw [rounding, rounded_of_nonneg nonneg] at bound ⊢
  rcases le_total (roundedMagnitude q) limit with small | large
  · exact clip_of_abs_le (by rwa [abs_of_nonneg nonneg'])
  · rw [clip_of_le large, abs_of_pos limit_pos] at bound
    exact absurd bound (lt_irrefl _)

/-- Powers of ten in the range of doubles. -/
theorem ten_pow_le_greatest {k : ℕ} (h : k ≤ 308) : (10 : ℚ) ^ k ≤ greatestValue := by
  have part : (10 : ℚ) ^ 77 ≤ 7 / 8 * 2 ^ 256 := by norm_num
  have whole : greatestValue = (2 ^ 53 - 1 : ℕ) / 2 ^ 53 * (2 ^ 256) ^ 4 := by
    rw [greatestValue, show (971 : ℤ) = (256 * 4 : ℕ) - (53 : ℕ) from rfl,
      zpow_sub₀ (by norm_num), zpow_natCast, zpow_natCast, pow_mul]
    ring
  calc
    (10 : ℚ) ^ k ≤ 10 ^ (77 * 4) := pow_le_pow_right₀ (by norm_num) h
    _ = (10 ^ 77) ^ 4 := pow_mul _ _ _
    _ ≤ (7 / 8 * 2 ^ 256) ^ 4 := pow_le_pow_left₀ (by norm_num) part 4
    _ = (7 / 8) ^ 4 * (2 ^ 256) ^ 4 := mul_pow _ _ _
    _ ≤ (2 ^ 53 - 1 : ℕ) / 2 ^ 53 * (2 ^ 256) ^ 4 :=
      mul_le_mul_of_nonneg_right (by norm_num) (by positivity)
    _ = greatestValue := whole.symm

theorem value_toFloat (n : UInt64) :
    IsFinite n.toFloat ∧ value n.toFloat = roundedMagnitude n.toNat := by
  obtain ⟨number, rounding⟩ := value_of_gives (gives_normalize n.toNat 0 .positive)
  rw [zpow_zero, mul_one, Int.cast_natCast] at rounding
  refine value_of_le_greatest number rounding (Nat.cast_nonneg _) ?_
  calc
    (n.toNat : ℚ) ≤ 2 ^ 64 := by exact_mod_cast n.toNat_lt.le
    _ ≤ 10 ^ 20 := by norm_num
    _ ≤ greatestValue := ten_pow_le_greatest (by norm_num)

theorem value_powerOfTen {k : ℕ} (h : k ≤ 308) :
    IsFinite (powerOfTen k) ∧ value (powerOfTen k) = roundedMagnitude (10 ^ k) := by
  -- The table of the first powers agrees with the general computation.
  have table :
      ∀ k ≤ 22, Float.ofScientific 1 false k = .ofModel (Float.Model.ofScientific 1 k) := by
    decide +kernel
  have computed : powerOfTen k = .ofModel (Float.Model.ofScientific 1 k) := by
    by_cases small : k ≤ 22
    · exact table k small
    · rw [powerOfTen, Float.ofScientific, dif_neg (by omega)]
      rfl
  have positive : 0 < 1 <<< 53 * 10 ^ k := Nat.mul_pos (by norm_num) (Nat.pow_pos (by norm_num))
  have fine : (-53 + 0 : ℤ) ≤ gridExponent ((1 <<< 53 * 10 ^ k : ℕ) * 2 ^ (-53 + 0 : ℤ)) :=
    le_gridExponent
      (.inl ((by decide : 2 ^ 52 ≤ 1 <<< 53).trans
        (Nat.le_mul_of_pos_right _ (Nat.pow_pos (by norm_num)))))
  have magnitude : ((1 <<< 53 * 10 ^ k : ℕ) : ℚ) * 2 ^ (-53 + 0 : ℤ) = 10 ^ k := by
    rw [add_zero, zpow_neg, Nat.shiftLeft_eq]
    push_cast
    field_simp
  have product := roundWithAccuracy_spec (.positive * .positive) positive fine
  rw [magnitude] at product
  have model : Float.Model.ofScientific 1 k =
      .pack (roundWithAccuracy Format.binary64 (.positive * .positive) (1 <<< 53 * 10 ^ k)
        (-53 + 0) .exact) := by
    rw [Float.Model.ofScientific, UnpackedFloat.ofScientific, dif_neg (by norm_num), if_neg,
      if_neg, if_pos]
    · rfl
    · exact Int.natCast_nonneg k
    · norm_num
      omega
    · norm_num
      omega
  obtain ⟨number, rounding⟩ :=
    value_of_gives (w := roundWithAccuracy Format.binary64 (.positive * .positive)
      (1 <<< 53 * 10 ^ k) (-53 + 0) .exact) (q := 10 ^ k)
      ⟨product.1.trans (rounded_of_nonneg (by positivity)).symm, product.2,
        (hasSign_roundWithAccuracy ..).number⟩
  rw [computed, model]
  exact value_of_le_greatest number rounding (by positivity) (ten_pow_le_greatest h)

theorem one_le_roundedMagnitude (h : 1 ≤ q) : 1 ≤ roundedMagnitude q := by
  have one : roundedMagnitude 1 = 1 := by
    have := roundedMagnitude_of_grid (m := 1) (e := 0) (by norm_num) (by norm_num)
    rwa [Nat.cast_one, zpow_zero, mul_one] at this
  calc
    1 = roundedMagnitude 1 := one.symm
    _ ≤ roundedMagnitude q := roundedMagnitude_mono one_pos h

theorem one_le_power (k : ℕ) : 1 ≤ roundedMagnitude (10 ^ k) :=
  one_le_roundedMagnitude (one_le_pow₀ (by norm_num))

/-! ## Scaling -/

theorem value_div_powerOfTen (hx : IsFinite x) (nonneg : 0 ≤ value x) {k : ℕ} (h : k ≤ 308) :
    IsFinite (x / powerOfTen k) ∧
      value (x / powerOfTen k) = roundedMagnitude (value x / roundedMagnitude (10 ^ k)) := by
  obtain ⟨finite, power⟩ := value_powerOfTen h
  have one_le := one_le_power k
  have positive : 0 < roundedMagnitude (10 ^ k) := one_pos.trans_le one_le
  obtain ⟨number, rounding⟩ := value_div hx finite (by rw [power]; exact positive.ne')
  rw [power] at rounding
  have quotient : 0 ≤ value x / roundedMagnitude (10 ^ k) := div_nonneg nonneg positive.le
  have finite' := (finite_of_rounded number rounding quotient hx (div_le_self nonneg one_le)).1
  exact ⟨finite', value_of_finite finite' rounding quotient⟩

theorem finite_divideRepeatedly (steps : ℕ) (hx : IsFinite x) (nonneg : 0 ≤ value x) :
    IsFinite (divideRepeatedly steps x) ∧ 0 ≤ value (divideRepeatedly steps x) := by
  induction steps generalizing x with
  | zero => exact ⟨hx, nonneg⟩
  | succ steps ih =>
    rw [divideRepeatedly]
    split
    · exact ⟨hx, nonneg⟩
    · obtain ⟨finite, quotient⟩ := value_div_powerOfTen hx nonneg (le_refl 308)
      refine ih finite ?_
      rw [greatestPower, quotient]
      exact roundedMagnitude_nonneg (div_nonneg nonneg (one_pos.trans_le (one_le_power _)).le)

theorem finite_scaleDown (hx : IsFinite x) (nonneg : 0 ≤ value x) (k : ℕ) :
    IsFinite (scaleDown x k) ∧ 0 ≤ value (scaleDown x k) := by
  obtain ⟨finite, nonneg⟩ := finite_divideRepeatedly ((k - 1) / greatestPower) hx nonneg
  have last : k - (k - 1) / greatestPower * greatestPower ≤ 308 := by
    rw [greatestPower]
    omega
  obtain ⟨finite', quotient⟩ := value_div_powerOfTen finite nonneg last
  refine ⟨finite', ?_⟩
  change 0 ≤ value (divideRepeatedly _ x / powerOfTen _)
  rw [quotient]
  exact roundedMagnitude_nonneg (div_nonneg nonneg (one_pos.trans_le (one_le_power _)).le)

theorem isFinite_of_not_isInf (number : IsNumber x) (h : x.isInf = false) : IsFinite x := by
  rw [IsNumber] at number
  change x.toModel.unpack.isFinite = true
  change x.toModel.unpack.isInf = false at h
  generalize x.toModel.unpack = u at *
  cases u with
  | notANumber => exact absurd rfl number
  | infinity => cases h
  | zero | finite => rfl

theorem scaleUp_eq_some {k : ℕ} (hx : IsFinite x) (nonneg : 0 ≤ value x)
    (h : scaleUp x k = some y) :
    IsFinite y ∧ 0 ≤ value y ∧
      (k ≤ 308 → value y = roundedMagnitude (value x * roundedMagnitude (10 ^ k))) := by
  rw [scaleUp] at h
  split at h
  · rename_i large
    split at h
    · cases h
      exact ⟨hx, nonneg, fun small => absurd large (by rw [greatestPower]; omega)⟩
    · cases h
  · rename_i small
    rw [greatestPower, not_lt] at small
    simp only at h
    split at h
    · cases h
    · rename_i inside
      cases h
      obtain ⟨finite, power⟩ := value_powerOfTen small
      obtain ⟨number, rounding⟩ := value_mul hx finite
      rw [power] at rounding
      have product : 0 ≤ value x * roundedMagnitude (10 ^ k) :=
        mul_nonneg nonneg (one_pos.trans_le (one_le_power k)).le
      have finite' := isFinite_of_not_isInf number (Bool.eq_false_of_not_eq_true inside)
      have exact := value_of_finite finite' rounding product
      exact ⟨finite', by rw [exact]; exact roundedMagnitude_nonneg product, fun _ => exact⟩

theorem scaleUp_of_le {k : ℕ} (hx : IsFinite x) (nonneg : 0 ≤ value x) (h : k ≤ 308)
    (small : value x * roundedMagnitude (10 ^ k) ≤ greatestValue) :
    ∃ y, scaleUp x k = some y ∧ IsFinite y ∧
      value y = roundedMagnitude (value x * roundedMagnitude (10 ^ k)) := by
  obtain ⟨finite, power⟩ := value_powerOfTen h
  obtain ⟨number, rounding⟩ := value_mul hx finite
  rw [power] at rounding
  obtain ⟨finite', product⟩ := value_of_le_greatest number rounding
    (mul_nonneg nonneg (one_pos.trans_le (one_le_power k)).le) small
  have inside : (x * powerOfTen k).isInf = false := by
    change (x * powerOfTen k).toModel.unpack.isFinite = true at finite'
    change (x * powerOfTen k).toModel.unpack.isInf = false
    generalize (x * powerOfTen k).toModel.unpack = u at finite'
    cases u with
    | infinity => cases finite'
    | _ => rfl
  refine ⟨x * powerOfTen k, ?_, finite', product⟩
  rw [scaleUp, if_neg (by rw [greatestPower]; omega)]
  simp only [inside, Bool.false_eq_true, if_false]

/-- Whatever is read is finite. -/
theorem finite_of_magnitude {n : Numeral} (h : n.magnitude = some x) :
    IsFinite x ∧ 0 ≤ value x := by
  rw [Numeral.magnitude] at h
  simp only at h
  split at h
  · obtain ⟨finite, whole⟩ :=
      value_toFloat (UInt64.ofNat (gatherFraction (gatherWhole 0 n.whole).1 0 n.fraction).1)
    obtain ⟨finite', nonneg, -⟩ :=
      scaleUp_eq_some finite (by rw [whole]; exact roundedMagnitude_nonneg (Nat.cast_nonneg _)) h
    exact ⟨finite', nonneg⟩
  · cases h
    obtain ⟨finite, whole⟩ :=
      value_toFloat (UInt64.ofNat (gatherFraction (gatherWhole 0 n.whole).1 0 n.fraction).1)
    exact finite_scaleDown finite
      (by rw [whole]; exact roundedMagnitude_nonneg (Nat.cast_nonneg _)) _

/-! ## Accuracy -/

theorem beq_zero_of_pos (hx : IsFinite x) (positive : 0 < value x) : (x == 0.0) = false := by
  have compared := compare_unpack hx.isNumber isFinite_zero.isNumber
  rw [value_zero, compare_gt_iff_gt.mpr positive] at compared
  change (x.toModel.unpack.compare (0.0 : Float).toModel.unpack == some .eq) = false
  rw [compared]
  rfl

/-- A power of ten that is a double is divided by at once. -/
theorem scaleDown_of_le (x : Float) {k : ℕ} (near : k ≤ 308) :
    scaleDown x k = x / powerOfTen k := by
  have steps : (k - 1) / greatestPower = 0 := by
    rw [greatestPower]
    omega
  rw [scaleDown, steps, zero_mul, Nat.sub_zero, divideRepeatedly]

/-- A greater power of ten is divided by in two steps. -/
theorem scaleDown_of_gt {k : ℕ} (hx : IsFinite x) (positive : 0 < value x) (far : 308 < k)
    (near : k ≤ 616) : scaleDown x k = x / powerOfTen 308 / powerOfTen (k - 308) := by
  have steps : (k - 1) / greatestPower = 1 := by
    rw [greatestPower]
    omega
  rw [scaleDown, steps, divideRepeatedly, beq_zero_of_pos hx positive, if_neg Bool.false_ne_true,
    divideRepeatedly, one_mul, greatestPower]

variable {n : Numeral}

theorem value_digits (small : n.digits < UInt64.size) :
    IsFinite (UInt64.ofNat n.digits).toFloat ∧
      value (UInt64.ofNat n.digits).toFloat = roundedMagnitude n.digits ∧
      0 ≤ value (UInt64.ofNat n.digits).toFloat := by
  have same : (UInt64.ofNat n.digits).toNat = n.digits := UInt64.toNat_ofNat_of_lt' small
  obtain ⟨finite, whole⟩ := value_toFloat (UInt64.ofNat n.digits)
  rw [same] at whole
  exact ⟨finite, whole, by rw [whole]; exact roundedMagnitude_nonneg (Nat.cast_nonneg _)⟩

theorem power_lt_limit {k : ℕ} (h : k ≤ 308) : roundedMagnitude (10 ^ k) < limit :=
  calc
    roundedMagnitude (10 ^ k) ≤ roundedMagnitude greatestValue :=
      roundedMagnitude_mono (pow_pos (by norm_num) k) (ten_pow_le_greatest h)
    _ = greatestValue := roundedMagnitude_greatestValue
    _ < limit := greatestValue_lt_limit

/-- Rounding a whole number other than zero. -/
theorem within_whole {m : ℚ} (h : 1 ≤ m) : Within 1 (roundedMagnitude m) m := by
  have normal : (2 : ℚ) ^ (-1022 : ℤ) ≤ m :=
    (zpow_le_one_of_nonpos₀ (by norm_num) (by norm_num)).trans h
  exact (within_roundedMagnitude ((zpow_le_zpow_right₀ (by norm_num) (by norm_num)).trans normal)).2
    normal

/-- After a first division by the greatest power of ten the quotient of a whole number is not too
small to be divided on. -/
theorem le_div_greatest {m : ℚ} (h : 1 ≤ m) :
    2 ^ (-1024 : ℤ) ≤ roundedMagnitude m / roundedMagnitude (10 ^ 308) := by
  rw [le_div_iff₀ (one_pos.trans_le (one_le_power 308))]
  calc
    2 ^ (-1024 : ℤ) * roundedMagnitude (10 ^ 308) ≤ 2 ^ (-1024 : ℤ) * limit :=
      mul_le_mul_of_nonneg_left (power_lt_limit (le_refl 308)).le (two_zpow_pos _).le
    _ = 1 := by
      rw [limit, ← zpow_natCast, ← zpow_add₀ (by norm_num)]
      rfl
    _ ≤ roundedMagnitude m := one_le_roundedMagnitude h

/-- Numbers of few digits and a small power of ten read as the nearest double. -/
theorem magnitude_of_short (few : n.digits ≤ 2 ^ 53) (lower : -22 ≤ n.scale)
    (upper : n.scale ≤ 22) :
    ∃ x, n.magnitude = some x ∧ IsFinite x ∧ value x = roundedMagnitude n.amount := by
  have small : n.digits < UInt64.size := few.trans_lt (by decide)
  have digits : roundedMagnitude n.digits = n.digits := by
    rcases few.lt_or_eq with less | same
    · have := roundedMagnitude_of_grid (e := 0) less (by norm_num)
      rwa [zpow_zero, mul_one] at this
    · have := roundedMagnitude_of_grid (m := 1) (e := 53) (by norm_num) (by norm_num)
      rw [same]
      push_cast
      rwa [Nat.cast_one, one_mul, show (53 : ℤ) = (53 : ℕ) from rfl, zpow_natCast] at this
  have power {k : ℕ} (h : k ≤ 22) : roundedMagnitude (10 ^ k) = 10 ^ k := by
    have grid : ((5 ^ k : ℕ) : ℚ) * 2 ^ (k : ℤ) = 10 ^ k := by
      rw [zpow_natCast, Nat.cast_pow, ← mul_pow]
      norm_num
    rw [← grid]
    exact roundedMagnitude_of_grid ((Nat.pow_le_pow_right (by norm_num) h).trans_lt (by norm_num))
      (by omega)
  obtain ⟨finite, whole, nonneg⟩ := value_digits small
  rw [digits] at whole
  rw [magnitude_eq small]
  split
  · rename_i up
    obtain ⟨k, exponent⟩ := Int.eq_ofNat_of_zero_le up
    have below : (n.digits : ℚ) * 10 ^ k ≤ greatestValue :=
      calc
        (n.digits : ℚ) * 10 ^ k ≤ 2 ^ 53 * 10 ^ 22 :=
          mul_le_mul (by exact_mod_cast few) (pow_le_pow_right₀ (by norm_num) (by omega))
            (by positivity) (by positivity)
        _ ≤ 10 ^ 38 := by norm_num
        _ ≤ greatestValue := ten_pow_le_greatest (by norm_num)
    obtain ⟨x, read, finite', product⟩ := scaleUp_of_le (k := k) finite nonneg (by omega)
      (by rw [whole, power (by omega)]; exact below)
    rw [whole, power (by omega)] at product
    rw [exponent, Int.toNat_natCast, Numeral.amount, exponent, zpow_natCast]
    exact ⟨x, read, finite', product⟩
  · rename_i down
    obtain ⟨k, exponent⟩ := Int.eq_ofNat_of_zero_le (by omega : 0 ≤ -n.scale)
    obtain ⟨finite', quotient⟩ := value_div_powerOfTen (k := k) finite nonneg (by omega)
    rw [whole, power (by omega), div_eq_mul_inv, ← zpow_natCast, ← zpow_neg] at quotient
    rw [exponent, Int.toNat_natCast, scaleDown_of_le _ (by omega), Numeral.amount,
      ← neg_neg n.scale, exponent]
    exact ⟨_, rfl, finite', quotient⟩

/-- A number that is not too close to the greatest double reads as a double. -/
theorem magnitude_isSome (small : n.digits < UInt64.size) (positive : 0 < n.digits)
    (upper : n.scale ≤ 308) (below : n.amount ≤ greatestValue * (1 - unitError) ^ 2) :
    n.magnitude.isSome := by
  rw [magnitude_eq small]
  split
  · rename_i up
    obtain ⟨k, exponent⟩ := Int.eq_ofNat_of_zero_le up
    obtain ⟨finite, whole, nonneg⟩ := value_digits small
    have near : Within 2 (roundedMagnitude n.digits * roundedMagnitude (10 ^ k))
        (n.digits * 10 ^ k) :=
      (within_whole (by exact_mod_cast positive)).mul (within_whole (one_le_pow₀ (by norm_num)))
    rw [Numeral.amount, exponent, zpow_natCast] at below
    obtain ⟨x, read, -⟩ := scaleUp_of_le (k := k) finite nonneg (by omega)
      (by rw [whole]; exact le_of_mul_le_mul_right (near.upper.trans below) (shrink_pos 2))
    rw [exponent, Int.toNat_natCast, read]
    rfl
  · rfl

/-- The double read is what is rounded last, and what is rounded last is close to the number. -/
theorem magnitude_within (small : n.digits < UInt64.size) (positive : 0 < n.digits)
    (lower : -616 ≤ n.scale) (upper : n.scale ≤ 308) (h : n.magnitude = some x) :
    ∃ q, value x = roundedMagnitude q ∧ Within 8 q n.amount := by
  obtain ⟨finite, whole, nonneg⟩ := value_digits small
  have digits : Within 1 (roundedMagnitude n.digits) n.digits :=
    within_whole (by exact_mod_cast positive)
  have power (k : ℕ) : Within 1 (roundedMagnitude (10 ^ k)) (10 ^ k) :=
    within_whole (one_le_pow₀ (by norm_num))
  rw [magnitude_eq small] at h
  split at h
  · rename_i up
    obtain ⟨k, exponent⟩ := Int.eq_ofNat_of_zero_le up
    rw [exponent, Int.toNat_natCast] at h
    obtain ⟨-, -, product⟩ := scaleUp_eq_some finite nonneg h
    refine ⟨_, product (by omega), ?_⟩
    rw [whole, Numeral.amount, exponent, zpow_natCast]
    exact (digits.mul (power k)).mono (by norm_num)
  · rename_i down
    obtain ⟨k, exponent⟩ := Int.eq_ofNat_of_zero_le (by omega : 0 ≤ -n.scale)
    rw [exponent, Int.toNat_natCast] at h
    cases h
    have amount : n.amount = n.digits / 10 ^ k := by
      rw [Numeral.amount, ← neg_neg n.scale, exponent, zpow_neg, zpow_natCast, div_eq_mul_inv]
    rw [amount]
    rcases Nat.lt_or_ge 308 k with far | near
    · obtain ⟨finite', first⟩ := value_div_powerOfTen finite nonneg (le_refl 308)
      have large := le_div_greatest (by exact_mod_cast positive : (1 : ℚ) ≤ n.digits)
      rw [whole] at first
      have nonneg' : 0 ≤ value ((UInt64.ofNat n.digits).toFloat / powerOfTen 308) := by
        rw [first]
        exact (within_roundedMagnitude large).1.pos.le
      have split : (n.digits : ℚ) / 10 ^ k = n.digits / 10 ^ 308 / 10 ^ (k - 308) := by
        rw [div_div, ← pow_add, Nat.add_sub_cancel' far.le]
      rw [scaleDown_of_gt finite (by rw [whole]; exact digits.pos) far (by omega), split]
      refine ⟨_, (value_div_powerOfTen finite' nonneg' (by omega)).2, ?_⟩
      rw [first]
      exact (((within_roundedMagnitude large).1.trans (digits.div (power 308))).div (power _)).mono
        (by norm_num)
    · rw [scaleDown_of_le _ near]
      refine ⟨_, (value_div_powerOfTen finite nonneg near).2, ?_⟩
      rw [whole]
      exact (digits.div (power k)).mono (by norm_num)

end ArenaAgent.Json
