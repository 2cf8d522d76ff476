import ArenaAgent.Proofs.Json.Writing

/-!
Doubles that are written and read again. Every finite double reads back as a finite double close to
it, and as itself if it is a zero or has few digits; it need not read back as itself otherwise.
-/
namespace ArenaAgent.Json

open ArenaAgent.Binary64
open Float.Model (UnpackedFloat Format)
open Float.Model.UnpackedFloat

variable {x y : Float} {n : Numeral}

/-! ## Signs -/

theorem unpack_neg (x : Float) : (-x).toModel.unpack = x.toModel.unpack.neg := by
  have bounds : Canonical x.toModel.unpack ∧ Packable x.toModel.unpack := canonical_unpack _
  change (Float.Model.pack x.toModel.unpack.neg).unpack = _
  generalize x.toModel.unpack = u at bounds
  cases u with
  | finite => exact unpack_pack bounds.1 bounds.2
  | notANumber | infinity | zero => exact unpack_pack trivial trivial

theorem value_neg (x : Float) : value (-x) = -value x := by
  rw [value, unpack_neg, unpackedValue_neg]
  rfl

theorem isFinite_neg (finite : IsFinite x) : IsFinite (-x) := by
  change (-x).toModel.unpack.isFinite = true
  change x.toModel.unpack.isFinite = true at finite
  rw [unpack_neg]
  cases h : x.toModel.unpack with
  | notANumber | infinity =>
    rw [h] at finite
    cases finite
  | zero | finite => rfl

theorem eq_of_value_eq (hx : IsFinite x) (hy : IsFinite y) (same : value x = value y)
    (nonzero : value y ≠ 0) : x = y :=
  (eq_or_isZero (same_iff.mpr ⟨hx.isNumber, hy.isNumber, same⟩)).resolve_right fun zeros =>
    nonzero zeros.2.value

/-- What a number with a sign reads as. -/
theorem toFloat?_eq_some (h : n.toFloat? = some y) :
    ∃ z, n.magnitude = some z ∧ y = if n.negative then -z else z := by
  obtain ⟨z, magnitude, rfl⟩ := Option.map_eq_some_iff.mp h
  exact ⟨z, magnitude, rfl⟩

/-- Whatever is read is finite. -/
theorem finite_of_toFloat? (h : n.toFloat? = some y) : IsFinite y := by
  obtain ⟨z, magnitude, rfl⟩ := toFloat?_eq_some h
  have finite := (finite_of_magnitude magnitude).1
  split
  · exact isFinite_neg finite
  · exact finite

/-- A magnitude at some distance from that of a double, with the sign of the double. -/
theorem value_of_magnitude (written : Written x n) (nonzero : value x ≠ 0)
    (magnitude : n.magnitude = some y) :
    ∃ z, n.toFloat? = some z ∧ IsFinite z ∧ |value z - value x| = |value y - (|value x|)| := by
  have finite := (finite_of_magnitude magnitude).1
  have sign := (written.some nonzero).2
  rw [Numeral.toFloat?, magnitude]
  rcases lt_or_gt_of_ne nonzero with below | above
  · refine ⟨-y, by simp [sign.mpr below], isFinite_neg finite, ?_⟩
    rw [value_neg, abs_of_neg below, ← abs_neg, neg_sub, sub_neg_eq_add, sub_neg_eq_add, add_comm]
  · have positive : n.negative = false :=
      Bool.eq_false_of_not_eq_true fun negative => absurd (sign.mp negative) above.not_gt
    exact ⟨y, by simp [positive], finite, by rw [abs_of_pos above]⟩

/-! ## The range of what is written -/

theorem roundedMagnitude_of_tiny {q : ℚ} (nonneg : 0 ≤ q) (tiny : q ≤ 2 ^ (-1076 : ℤ)) :
    roundedMagnitude q = 0 := by
  rcases nonneg.eq_or_lt with rfl | positive
  · exact roundedMagnitude_zero
  · have grid : gridExponent (2 ^ (-1076 : ℤ)) = -1074 :=
      RoundingInterval.gridExponent_eq (zpow_lt_zpow_right₀ (by norm_num) (by norm_num))
        (.inr ⟨rfl, two_zpow_pos _⟩) (le_refl _)
    have quarter : (2 : ℚ) ^ (-1076 : ℤ) / 2 ^ (-1074 : ℤ) = 1 / 4 := by
      rw [← zpow_sub₀ (by norm_num)]
      norm_num
    have least : roundedMagnitude (2 ^ (-1076 : ℤ)) = 0 := by
      rw [roundedMagnitude, grid, quarter, nearest]
      norm_num
    exact le_antisymm ((roundedMagnitude_mono positive tiny).trans_eq least)
      (roundedMagnitude_nonneg nonneg)

/-- Seventeen digits so far below one round to zero. -/
theorem amount_le_of_scale (few : n.digits ≤ 10 ^ 17) (small : n.scale < -616) :
    n.amount ≤ 2 ^ (-1076 : ℤ) :=
  calc
    n.amount ≤ 10 ^ 17 * 10 ^ (-617 : ℤ) :=
      mul_le_mul (by exact_mod_cast few) (zpow_le_zpow_right₀ (by norm_num) (by omega))
        (Decimal.ten_zpow_pos _).le (by norm_num)
    _ = 10 ^ (-600 : ℤ) := by
      rw [← zpow_natCast, ← zpow_add₀ (by norm_num)]
      rfl
    _ ≤ 8 ^ (-600 : ℤ) := by
      rw [zpow_neg, zpow_neg]
      exact inv_anti₀ (zpow_pos (by norm_num) _)
        (zpow_le_zpow_left₀ (by norm_num) (by norm_num) (by norm_num))
    _ = 2 ^ (3 * -600 : ℤ) := by
      rw [zpow_mul]
      norm_num
    _ ≤ 2 ^ (-1076 : ℤ) := zpow_le_zpow_right₀ (by norm_num) (by norm_num)

/-- A whole number with so many zeros is beyond the doubles. -/
theorem le_amount_of_scale (some : 0 < n.digits) (great : 308 < n.scale) :
    2 ^ (1024 : ℤ) ≤ n.amount :=
  calc
    (2 : ℚ) ^ (1024 : ℤ) = (2 ^ 93) ^ 11 * 2 := by
      rw [← pow_mul, ← pow_succ, ← zpow_natCast]
      rfl
    _ ≤ (10 ^ 28) ^ 11 * 10 :=
      mul_le_mul (pow_le_pow_left₀ (by norm_num) (by norm_num) 11) (by norm_num) (by norm_num)
        (by positivity)
    _ = 10 ^ (309 : ℤ) := by
      rw [← pow_mul, ← pow_succ, ← zpow_natCast]
      rfl
    _ ≤ 1 * 10 ^ n.scale := by
      rw [one_mul]
      exact zpow_le_zpow_right₀ (by norm_num) (by omega)
    _ ≤ n.amount := mul_le_mul_of_nonneg_right (by exact_mod_cast some) (Decimal.ten_zpow_pos _).le

/-- The power of ten of a number that is written is one that the reader can scale by. -/
theorem scale_of_written (written : Written x n) (finite : IsFinite x) (nonzero : value x ≠ 0) :
    -616 ≤ n.scale ∧ n.scale ≤ 308 := by
  have magnitude := written.amount
  constructor
  · by_contra! small
    have nonneg : 0 ≤ n.amount := mul_nonneg (Nat.cast_nonneg _) (Decimal.ten_zpow_pos _).le
    rw [roundedMagnitude_of_tiny nonneg (amount_le_of_scale written.digits small)] at magnitude
    exact nonzero (abs_eq_zero.mp magnitude.symm)
  · by_contra! great
    have exact := roundedMagnitude_of_grid (m := 1) (e := 1024) (by norm_num) (by norm_num)
    rw [Nat.cast_one, one_mul] at exact
    have above :=
      roundedMagnitude_mono (two_zpow_pos _) (le_amount_of_scale (written.some nonzero).1 great)
    rw [exact, magnitude] at above
    have limited := (isFinite_iff.mp finite).2
    rw [limit, ← zpow_natCast] at limited
    exact absurd limited above.not_gt

/-- The greatest doubles, of either sign, for which the errors of reading would have room to lead
beyond the range. -/
def outermost : List Float :=
  [.ofBits 0x7FEFFFFFFFFFFFFD, .ofBits 0x7FEFFFFFFFFFFFFE, .ofBits 0x7FEFFFFFFFFFFFFF,
    .ofBits 0xFFEFFFFFFFFFFFFD, .ofBits 0xFFEFFFFFFFFFFFFE, .ofBits 0xFFEFFFFFFFFFFFFF]

theorem mem_outermost (finite : IsFinite x)
    (great : ((2 ^ 53 - 4 : ℕ) : ℚ) * 2 ^ (971 : ℤ) < |value x|) : x ∈ outermost := by
  have bounds : Canonical x.toModel.unpack ∧ Packable x.toModel.unpack := canonical_unpack _
  have number := finite.isNumber
  change x.toModel.unpack.isFinite = true at finite
  rw [value] at great
  cases unpacked : x.toModel.unpack with
  | notANumber | infinity =>
    rw [unpacked] at finite
    cases finite
  | zero =>
    rw [unpacked, unpackedValue, abs_zero] at great
    exact absurd great (by positivity : (0 : ℚ) ≤ (2 ^ 53 - 4 : ℕ) * 2 ^ (971 : ℤ)).not_gt
  | finite s m e hm =>
    rw [unpacked] at bounds great
    obtain ⟨⟨small, -⟩, packed⟩ := bounds
    have few : (m : ℚ) < 2 ^ 53 := by exact_mod_cast small
    rw [unpackedValue, abs_signed (mul_pos (by exact_mod_cast hm) (two_zpow_pos e)).le] at great
    have top : e = 971 := by
      refine le_antisymm packed (not_lt.mp fun below => ?_)
      have scale := two_zpow_pos 970
      have less : (2 : ℚ) ^ e ≤ 2 ^ (970 : ℤ) := zpow_le_zpow_right₀ (by norm_num) (by omega)
      have product := mul_le_mul few.le less (two_zpow_pos e).le (by norm_num)
      have many : ((2 ^ 53 - 4 : ℕ) : ℚ) = 2 ^ 53 - 4 := by norm_num
      rw [show (971 : ℤ) = 970 + 1 from rfl, zpow_add_one₀ (by norm_num), many] at great
      generalize (2 : ℚ) ^ (970 : ℤ) = unit at *
      linarith
    subst top
    have many : 2 ^ 53 - 4 < m := by
      exact_mod_cast lt_of_mul_lt_mul_right great (two_zpow_pos 971).le
    have same {y : Float} (h : y.toModel.unpack = .finite s m 971 hm) : x = y :=
      eq_of_unpack_eq (unpacked.trans h.symm) number
    obtain rfl | rfl | rfl : m = 2 ^ 53 - 3 ∨ m = 2 ^ 53 - 2 ∨ m = 2 ^ 53 - 1 := by omega
    · cases s with
      | positive => simp [outermost, same (y := .ofBits 0x7FEFFFFFFFFFFFFD) rfl]
      | negative => simp [outermost, same (y := .ofBits 0xFFEFFFFFFFFFFFFD) rfl]
    · cases s with
      | positive => simp [outermost, same (y := .ofBits 0x7FEFFFFFFFFFFFFE) rfl]
      | negative => simp [outermost, same (y := .ofBits 0xFFEFFFFFFFFFFFFE) rfl]
    · cases s with
      | positive => simp [outermost, same (y := .ofBits 0x7FEFFFFFFFFFFFFF) rfl]
      | negative => simp [outermost, same (y := .ofBits 0xFFEFFFFFFFFFFFFF) rfl]

/-- The greatest doubles are in the range of the reader all the same. -/
theorem outermost_read : ∀ x ∈ outermost, ((parse (numberText x)).bind toFloat?).isSome := by
  decide +kernel

/-! ## Reading what was written -/

/-- The number written for a double that is not among the greatest leaves room for the
errors of reading. -/
theorem amount_le_of_written (written : Written x n)
    (small : |value x| ≤ ((2 ^ 53 - 4 : ℕ) : ℚ) * 2 ^ (971 : ℤ)) :
    n.amount ≤ greatestValue * (1 - unitError) ^ 2 := by
  have nonneg : 0 ≤ n.amount := mul_nonneg (Nat.cast_nonneg _) (Decimal.ten_zpow_pos _).le
  have off := (abs_le.mp (abs_roundedMagnitude_sub_le nonneg)).1
  have sum : max (n.amount * unitError) leastError ≤ n.amount * unitError + leastError :=
    max_le_add_of_nonneg (mul_nonneg nonneg unitError_bounds.1.le) (two_zpow_pos _).le
  have least : leastError ≤ 1 / 2 ^ 60 * 2 ^ (971 : ℤ) := by
    rw [leastError, one_div, ← zpow_natCast, ← zpow_neg, ← zpow_add₀ (by norm_num)]
    exact zpow_le_zpow_right₀ (by norm_num) (by norm_num)
  have shrink : 0 < 1 - unitError := by
    have := unitError_bounds.2
    linarith
  have scale := two_zpow_pos 971
  rw [written.amount] at off
  refine le_of_mul_le_mul_right ?_ shrink
  calc
    n.amount * (1 - unitError) = n.amount - n.amount * unitError := by ring
    _ ≤ |value x| + leastError := by linarith
    _ ≤ (2 ^ 53 - 4 : ℕ) * 2 ^ (971 : ℤ) + 1 / 2 ^ 60 * 2 ^ (971 : ℤ) := add_le_add small least
    _ = ((2 ^ 53 - 4 : ℕ) + 1 / 2 ^ 60) * 2 ^ (971 : ℤ) := by rw [add_mul]
    _ ≤ (2 ^ 53 - 1 : ℕ) * (1 - unitError) ^ 3 * 2 ^ (971 : ℤ) := by
      refine mul_le_mul_of_nonneg_right ?_ scale.le
      rw [unitError]
      norm_num
    _ = greatestValue * (1 - unitError) ^ 2 * (1 - unitError) := by
      rw [greatestValue]
      ring

/-- The double that the text of a double reads as. -/
def reread (x : Float) : Float :=
  ((parse (numberText x)).bind toFloat?).getD x

theorem toFloat?_isSome_of_written (finite : IsFinite x)
    (spelled : (Json.number n).SpelledBy (numberText x)) (written : Written x n) :
    n.toFloat?.isSome := by
  by_cases zero : value x = 0
  · rcases written.zero zero with ⟨rfl, -⟩ | ⟨rfl, -⟩ <;> decide +kernel
  · by_cases great : ((2 ^ 53 - 4 : ℕ) : ℚ) * 2 ^ (971 : ℤ) < |value x|
    · have read := outermost_read x (mem_outermost finite great)
      rwa [parse_eq_some_iff.mpr spelled, Option.bind_some] at read
    · have positive := (written.some zero).1
      have below := amount_le_of_written written (not_lt.mp great)
      rw [Numeral.toFloat?, Option.isSome_map]
      exact magnitude_isSome (written.digits.trans_lt (by decide)) positive
        (scale_of_written written finite zero).2 below

/-- The text of a finite double is a number that rounds to it and can be read. -/
theorem numberText_reads (finite : IsFinite x) :
    ∃ n, Prints (numberText x) (Json.number n).tokens ∧ Written x n ∧
      n.toFloat? = some (reread x) := by
  obtain ⟨n, writes, written⟩ := numberText_spec finite
  have spelled := writes.prints.spelledBy
  obtain ⟨y, read⟩ :=
    Option.isSome_iff_exists.mp (toFloat?_isSome_of_written finite spelled written)
  refine ⟨n, writes.prints, written, ?_⟩
  rw [reread, parse_eq_some_iff.mpr spelled, Option.bind_some, toFloat?, read]
  rfl

theorem isFinite_reread (finite : IsFinite x) : IsFinite (reread x) := by
  obtain ⟨n, -, -, read⟩ := numberText_reads finite
  exact finite_of_toFloat? read

/-- Both zeros read back as themselves. -/
theorem reread_of_zero (finite : IsFinite x) (zero : value x = 0) : reread x = x := by
  have plus : (⟨false, [0], [0], none⟩ : Numeral).toFloat? = some 0.0 := by decide +kernel
  have minus : (⟨true, [0], [0], none⟩ : Numeral).toFloat? = some (-0.0) := by decide +kernel
  obtain ⟨n, -, written, read⟩ := numberText_reads finite
  rcases written.zero zero with ⟨rfl, same⟩ | ⟨rfl, same⟩
  · exact (Option.some.inj (plus.symm.trans read)).symm.trans same.symm
  · exact (Option.some.inj (minus.symm.trans read)).symm.trans same.symm

/-- What is read back is close to what was written. -/
theorem abs_reread_sub_le (finite : IsFinite x) :
    |value (reread x) - value x| ≤ |value x| / 2 ^ 49 + 2 ^ (-1073 : ℤ) := by
  by_cases zero : value x = 0
  · rw [reread_of_zero finite zero, sub_self, abs_zero]
    positivity
  · obtain ⟨n, -, written, read⟩ := numberText_reads finite
    obtain ⟨y, magnitude, -⟩ := toFloat?_eq_some read
    obtain ⟨lower, upper⟩ := scale_of_written written finite zero
    obtain ⟨z, read', -, distance⟩ := value_of_magnitude written zero magnitude
    obtain ⟨q, last, within⟩ := magnitude_within (written.digits.trans_lt (by decide))
      (written.some zero).1 lower upper magnitude
    have close := abs_roundedMagnitude_sub_le_of_within within
    rw [read] at read'
    cases read'
    rw [distance, last, ← written.amount]
    exact close

/-- A double that is written with few digits and a small power of ten reads back as itself. -/
theorem reread_of_short (finite : IsFinite x) (spelled : (Json.number n).SpelledBy (numberText x))
    (few : n.digits ≤ 2 ^ 53) (lower : -22 ≤ n.scale) (upper : n.scale ≤ 22) : reread x = x := by
  by_cases zero : value x = 0
  · exact reread_of_zero finite zero
  · obtain ⟨n', prints, written, read⟩ := numberText_reads finite
    have same : n' = n := by
      have tokens := prints.spelledBy.symm.trans spelled
      cases tokens
      rfl
    subst same
    obtain ⟨y, magnitude, -, nearest⟩ := magnitude_of_short few lower upper
    obtain ⟨z, read', finite', distance⟩ := value_of_magnitude written zero magnitude
    rw [nearest, written.amount, sub_self, abs_zero, abs_eq_zero, sub_eq_zero] at distance
    rw [read] at read'
    cases read'
    exact eq_of_value_eq finite' finite distance zero

end ArenaAgent.Json
