import ArenaAgent.Proofs.Arena.Lawful
import ArenaAgent.Proofs.Binary64.Arithmetic

/-!
The arena can rely on doubles. The order is that of their values, whatever is added to or taken from
them is rounded without crossing a double, and a random number lies between its ends because the
span was made to fit.
-/
namespace ArenaAgent.Binary64

open Float.Model (UnpackedFloat Format)
open Float.Model.UnpackedFloat

variable {x y : Float}

/-! ## Finite doubles -/

theorem isFinite_iff : IsFinite x ↔ IsNumber x ∧ |value x| < limit := by
  have bounds := canonical_unpack x.toModel.toBits.toBitVec
  change x.toModel.unpack.isFinite = true ↔
    x.toModel.unpack ≠ .notANumber ∧ |unpackedValue x.toModel.unpack| < limit
  change Canonical x.toModel.unpack ∧ Packable x.toModel.unpack at bounds
  generalize x.toModel.unpack = u at bounds
  cases u with
  | notANumber => simp [UnpackedFloat.isFinite]
  | infinity s => simp [UnpackedFloat.isFinite, unpackedValue, abs_signed limit_pos.le]
  | zero s => simp [UnpackedFloat.isFinite, unpackedValue, limit_pos]
  | finite s m e hm =>
    obtain ⟨positive, bound⟩ := magnitude_bounds bounds.1 bounds.2
    simp [UnpackedFloat.isFinite, unpackedValue, abs_signed positive.le, bound]

theorem clip_rounded (hx : IsFinite x) : clip (rounded (value x)) = value x := by
  rw [rounded_value hx, clip_value]

/-- Rounding does not cross a double. -/
theorem clip_rounded_le (hy : IsFinite y) {q : ℚ} (h : q ≤ value y) : clip (rounded q) ≤ value y :=
  (clip_mono (rounded_mono h)).trans_eq (clip_rounded hy)

theorem le_clip_rounded (hx : IsFinite x) {q : ℚ} (h : value x ≤ q) : value x ≤ clip (rounded q) :=
  (clip_rounded hx).symm.trans_le (clip_mono (rounded_mono h))

theorem not_isFinite_pack {u : UnpackedFloat} (h : u = .notANumber ∨ ∃ s, u = .infinity s) :
    ¬ IsFinite (.ofModel (.pack u)) := by
  obtain rfl | ⟨s, rfl⟩ := h
  · exact Bool.false_ne_true
  · cases s <;> exact Bool.false_ne_true

theorem finite_of_pack_add {u v : UnpackedFloat}
    (h : IsFinite (.ofModel (.pack (UnpackedFloat.add Format.binary64 u v)))) :
    u.isFinite = true ∧ v.isFinite = true := by
  cases u with
  | notANumber => exact absurd h (not_isFinite_pack (.inl rfl))
  | infinity s =>
    cases v with
    | notANumber => exact absurd h (not_isFinite_pack (.inl rfl))
    | infinity s' =>
      rw [UnpackedFloat.add] at h
      split at h
      · exact absurd h (not_isFinite_pack (.inr ⟨s, rfl⟩))
      · exact absurd h (not_isFinite_pack (.inl rfl))
    | zero | finite => exact absurd h (not_isFinite_pack (.inr ⟨s, rfl⟩))
  | zero | finite =>
    cases v with
    | notANumber => exact absurd h (not_isFinite_pack (.inl rfl))
    | infinity s' => exact absurd h (not_isFinite_pack (.inr ⟨s', rfl⟩))
    | zero | finite => exact ⟨rfl, rfl⟩

/-- A sum is finite only if its operands are. -/
theorem finite_of_add (h : IsFinite (x + y)) : IsFinite x ∧ IsFinite y :=
  finite_of_pack_add h

/-- A difference is finite only if its operands are. -/
theorem finite_of_sub (h : IsFinite (x - y)) : IsFinite x ∧ IsFinite y := by
  change IsFinite
    (.ofModel (.pack (UnpackedFloat.sub Format.binary64 x.toModel.unpack y.toModel.unpack))) at h
  rw [sub_eq_add] at h
  obtain ⟨finite, finite'⟩ := finite_of_pack_add h
  refine ⟨finite, ?_⟩
  change y.toModel.unpack.isFinite = true
  generalize y.toModel.unpack = v at finite'
  cases v with
  | notANumber | infinity => cases finite'
  | zero | finite => rfl

/-- A quotient is finite only if the dividend is. -/
theorem finite_of_div (h : IsFinite (x / y)) : IsFinite x := by
  change IsFinite
    (.ofModel (.pack (UnpackedFloat.div Format.binary64 x.toModel.unpack y.toModel.unpack))) at h
  change x.toModel.unpack.isFinite = true
  generalize x.toModel.unpack = u at *
  generalize y.toModel.unpack = v at *
  cases u with
  | notANumber => exact absurd h (not_isFinite_pack (.inl rfl))
  | infinity s =>
    cases v with
    | notANumber | infinity => exact absurd h (not_isFinite_pack (.inl rfl))
    | zero s' | finite s' => exact absurd h (not_isFinite_pack (.inr ⟨s / s', rfl⟩))
  | zero | finite => rfl

theorem Fields.value_nonneg {e : BitVec 11} {m : BitVec 52} {u : UnpackedFloat}
    (h : Fields .positive e m u) : 0 ≤ unpackedValue u := by
  cases h with
  | infinity => exact limit_pos.le
  | notANumber | zero => exact le_refl _
  | subnormal he hm => exact mul_nonneg (Nat.cast_nonneg _) (two_zpow_pos _).le
  | normal lower upper => exact mul_nonneg (Nat.cast_nonneg _) (two_zpow_pos _).le

/-- Packing keeps the sign, rounded or not. -/
theorem HasSign.value_pack_nonneg {u : UnpackedFloat} (h : HasSign .positive u) :
    0 ≤ unpackedValue (Float.Model.pack u).unpack := by
  have components (e : BitVec 11) (m : BitVec 52) :
      0 ≤ unpackedValue
        (UnpackedFloat.unpack Format.binary64 (packComponents Format.binary64 .positive e m)) :=
    (fields_packComponents .positive e m).value_nonneg
  change 0 ≤ unpackedValue (UnpackedFloat.unpack Format.binary64 (pack Format.binary64 u))
  cases h with
  | zero => exact components 0 0
  | finite m e hm =>
    simp only [pack]
    split
    · exact components (-1) 0
    · split
      · exact components _ _
      · exact components 0 _

/-- What is known of finite doubles that are not negative. -/
theorem unpack_of_nonneg (hx : IsFinite x) (nonneg : 0 ≤ value x) :
    (∃ s, x.toModel.unpack = .zero s) ∨ ∃ m e hm, x.toModel.unpack = .finite .positive m e hm := by
  change x.toModel.unpack.isFinite = true at hx
  change 0 ≤ unpackedValue x.toModel.unpack at nonneg
  generalize x.toModel.unpack = u at *
  cases u with
  | infinity | notANumber => cases hx
  | zero s => exact .inl ⟨s, rfl⟩
  | finite s m e hm =>
    cases s with
    | positive => exact .inr ⟨m, e, hm, rfl⟩
    | negative =>
      have := mul_pos (Nat.cast_pos.mpr hm) (two_zpow_pos e)
      simp only [unpackedValue, signed] at nonneg
      linarith

theorem value_div_nonneg (hx : IsFinite x) (nonneg : 0 ≤ value x) (hy : IsFinite y)
    (positive : 0 < value y) : 0 ≤ value (x / y) := by
  change 0 ≤ unpackedValue (Float.Model.pack
    (UnpackedFloat.div Format.binary64 x.toModel.unpack y.toModel.unpack)).unpack
  obtain ⟨s', zero⟩ | ⟨n, f, hn, divisor⟩ := unpack_of_nonneg hy positive.le
  · rw [value, zero] at positive
    exact absurd positive (lt_irrefl _)
  · rw [divisor]
    obtain ⟨s, dividend⟩ | ⟨m, e, hm, dividend⟩ := unpack_of_nonneg hx nonneg
    · rw [dividend]
      exact (value_pack_zero _).ge
    · rw [dividend, UnpackedFloat.div]
      exact (hasSign_roundWithAccuracy ..).value_pack_nonneg

/-! ## Fractions -/

theorem unpack_ofBits (n : UInt64) :
    (Float.ofBits n).toModel.unpack = UnpackedFloat.unpack Format.binary64 n.toBitVec :=
  unpack_pack (canonical_unpack _).1 (canonical_unpack _).2

/-- Bit patterns below that of infinity. -/
theorem value_ofBits_nonneg {n : ℕ} (h : n < 2047 * 2 ^ 52) :
    IsFinite (Float.ofBits (.ofNat n)) ∧ 0 ≤ value (Float.ofBits (.ofNat n)) := by
  have pattern : (UInt64.ofNat n).toBitVec.toNat = n := Nat.mod_eq_of_lt (by omega)
  have fields := fields_unpack (UInt64.ofNat n).toBitVec
  rw [unpackSign_of_lt (by omega)] at fields
  have exponent := toNat_unpackExponent (UInt64.ofNat n).toBitVec
  rw [pattern] at exponent
  rw [IsFinite, Float.isFinite, Float.Model.isFinite, value, unpack_ofBits]
  refine ⟨?_, fields.value_nonneg⟩
  generalize UnpackedFloat.unpack Format.binary64 (UInt64.ofNat n).toBitVec = u at fields
  cases fields with
  | infinity he | notANumber he => omega
  | zero | subnormal | normal => rfl

/-- Bit patterns of the doubles from one to two. -/
theorem value_ofBits_one {n : UInt64} {k : ℕ} (small : k < 2 ^ 52)
    (h : n.toNat = 1023 * 2 ^ 52 + k) :
    IsFinite (Float.ofBits n) ∧ value (Float.ofBits n) = 1 + k / 2 ^ 52 := by
  have pattern : n.toBitVec.toNat = 1023 * 2 ^ 52 + k := h
  have fields := fields_unpack n.toBitVec
  rw [unpackSign_of_lt (by omega)] at fields
  have exponent := toNat_unpackExponent n.toBitVec
  have mantissa := toNat_unpackMantissa n.toBitVec
  rw [pattern] at exponent mantissa
  have fields' := fields.unique (.normal (by omega) (by omega))
  rw [IsFinite, Float.isFinite, Float.Model.isFinite, value, unpack_ofBits, fields']
  refine ⟨rfl, ?_⟩
  have exponent' : ((@unpackExponent Format.binary64 n.toBitVec).toNat : ℤ) - 1075 = -52 := by omega
  have mantissa' : (@unpackMantissa Format.binary64 n.toBitVec).toNat = k := by omega
  rw [unpackedValue, exponent', mantissa', signed]
  push_cast
  rw [zpow_neg]
  norm_num
  ring

theorem isFinite_zero : IsFinite 0.0 :=
  rfl

theorem value_zero : value 0.0 = 0 :=
  rfl

theorem isFinite_one : IsFinite 1.0 ∧ value 1.0 = 1 := by
  refine ⟨rfl, ?_⟩
  have one : (1.0 : Float).toModel.unpack = .finite .positive (2 ^ 52) (-52) (by norm_num) := rfl
  rw [value, one, unpackedValue, signed, zpow_neg]
  norm_num

theorem value_fraction (word : UInt64) :
    IsFinite (fraction word) ∧ ∃ k : ℕ, k < 2 ^ 52 ∧ value (fraction word) = k / 2 ^ 52 := by
  have small : (word >>> 12).toNat < 2 ^ 52 := by
    have := word.toNat_lt
    simp [Nat.shiftRight_eq_div_pow]
    omega
  have pattern :
      ((word >>> 12) ||| 0x3FF0000000000000).toNat = 1023 * 2 ^ 52 + (word >>> 12).toNat := by
    rw [UInt64.toNat_or, Nat.or_comm]
    exact (Nat.shiftLeft_add_eq_or_of_lt small 1023).symm
  generalize (word >>> 12).toNat = k at *
  obtain ⟨finite, above⟩ := value_ofBits_one small pattern
  obtain ⟨number, difference⟩ := value_sub finite isFinite_one.1
  have lower : (0 : ℚ) ≤ k / 2 ^ 52 := div_nonneg (Nat.cast_nonneg k) (by norm_num)
  have upper : (k : ℚ) / 2 ^ 52 < limit := by
    have : (k : ℚ) / 2 ^ 52 < 1 := by
      rw [div_lt_one (by norm_num)]
      exact_mod_cast small
    exact this.trans one_lt_limit
  have grid : (k : ℚ) / 2 ^ 52 = k * 2 ^ (-52 : ℤ) := by
    rw [zpow_neg, div_eq_mul_inv]
    rfl
  have same : clip (rounded (1 + k / 2 ^ 52 - 1)) = k / 2 ^ 52 := by
    rw [add_sub_cancel_left, rounded_of_nonneg lower, grid, roundedMagnitude_of_grid (by omega)
      (by norm_num), ← grid, clip_of_abs_le (abs_le.mpr ⟨by linarith, upper.le⟩)]
  rw [above, isFinite_one.2, same] at difference
  have bound : |value (fraction word)| < limit := by
    rw [fraction, difference]
    exact abs_lt.mpr ⟨by linarith, upper⟩
  exact ⟨isFinite_iff.mpr ⟨number, bound⟩, k, small, difference⟩

theorem value_greatestFraction :
    IsFinite greatestFraction ∧ value greatestFraction = (2 ^ 52 - 1) / 2 ^ 52 := by
  refine ⟨rfl, ?_⟩
  have greatest :
      greatestFraction.toModel.unpack = .finite .positive (2 ^ 53 - 2) (-53) (by norm_num) := rfl
  rw [value, greatest, unpackedValue, signed, zpow_neg]
  norm_num

/-- What is rounded from between zero and a finite double is finite. -/
theorem finite_of_rounded {q : ℚ} (number : IsNumber x) (rounding : value x = clip (rounded q))
    (nonneg : 0 ≤ q) (hy : IsFinite y) (below : q ≤ value y) : IsFinite x ∧ 0 ≤ value x := by
  have lower : 0 ≤ value x := by
    rw [rounding]
    exact le_clip_rounded isFinite_zero nonneg
  have upper : value x ≤ value y := by
    rw [rounding]
    exact clip_rounded_le hy below
  have bound := (isFinite_iff.mp hy).2
  rw [abs_of_nonneg (lower.trans upper)] at bound
  exact ⟨isFinite_iff.mpr ⟨number, by rw [abs_of_nonneg lower]; exact upper.trans_lt bound⟩, lower⟩

/-! ## Spans -/

/-- Not even the greatest fraction of the span leads past `high` from `low`. -/
structure Fits (low high span : Float) : Prop where
  finite : IsFinite span
  nonneg : 0 ≤ value span
  within : ¬ high < span * greatestFraction + low

variable {low high span : Float}

theorem fits_zero (hl : IsFinite low) (ordered : value low ≤ value high) (hs : IsFinite span)
    (zero : value span = 0) : Fits low high span := by
  obtain ⟨finite, greatest⟩ := value_greatestFraction
  refine ⟨hs, zero.ge, fun past => ?_⟩
  obtain ⟨number, product⟩ := value_mul hs finite
  rw [zero, zero_mul] at product
  obtain ⟨finite', -⟩ := finite_of_rounded number product (le_refl 0) isFinite_zero (le_refl 0)
  have sum := (value_add finite' hl).2
  rw [product, ← value_zero, clip_rounded isFinite_zero, value_zero, zero_add,
    clip_rounded hl] at sum
  have := (lt_iff.mp past).2.2
  linarith

theorem fits_fittingSpan (hl : IsFinite low) (ordered : value low ≤ value high) {bits : ℕ}
    (h : bits < 2047 * 2 ^ 52) : Fits low high (fittingSpan low high bits) := by
  induction bits with
  | zero => exact fits_zero hl ordered isFinite_zero value_zero
  | succ bits ih =>
    rw [fittingSpan]
    split
    · exact ih (by omega)
    · rename_i within
      obtain ⟨finite, nonneg⟩ := value_ofBits_nonneg h
      exact ⟨finite, nonneg, within⟩

theorem unpack_ofBits_toBits : (Float.ofBits x.toBits).toModel.unpack = x.toModel.unpack :=
  unpack_ofBits x.toBits

/-- Of the finite doubles that are not negative, only negative zero has the sign bit. -/
theorem toBits_of_nonneg (hx : IsFinite x) (nonneg : 0 ≤ value x) :
    x.toBits.toNat < 2047 * 2 ^ 52 ∨ value x = 0 := by
  have fields := fields_unpack x.toBits.toBitVec
  have exponent := toNat_unpackExponent x.toBits.toBitVec
  change _ = x.toBits.toNat / 2 ^ 52 % 2 ^ 11 at exponent
  change Fields _ _ _ x.toModel.unpack at fields
  rcases lt_or_ge x.toBits.toNat (2 ^ 63) with sign | sign
  · left
    change x.toModel.unpack.isFinite = true at hx
    generalize x.toModel.unpack = u at fields hx
    cases fields with
    | infinity | notANumber => cases hx
    | zero he | subnormal he | normal _ he => omega
  · right
    rw [unpackSign_of_le sign] at fields
    obtain ⟨s, zero⟩ | ⟨m, e, hm, positive⟩ := unpack_of_nonneg hx nonneg
    · rw [value, zero, unpackedValue]
    · rw [positive] at fields
      cases fields

theorem fits_span (h : low ≤ high) (hs : span? low high = some span) :
    IsFinite low ∧ Fits low high span := by
  obtain ⟨-, -, ordered⟩ := le_iff.mp h
  simp only [span?] at hs
  split at hs
  · rename_i finite
    obtain rfl := Option.some.inj hs
    have width := finite_of_div finite
    obtain ⟨finite₁, finite₂⟩ := finite_of_sub width
    have widthNonneg : 0 ≤ value (high - low) := by
      rw [(value_sub finite₁ finite₂).2]
      exact le_clip_rounded isFinite_zero (sub_nonneg.mpr ordered)
    obtain ⟨greatest, greatestValue⟩ := value_greatestFraction
    have nonneg := value_div_nonneg width widthNonneg greatest (by rw [greatestValue]; norm_num)
    refine ⟨finite₂, ?_⟩
    rcases toBits_of_nonneg finite nonneg with below | zero
    · exact fits_fittingSpan finite₂ ordered below
    · -- The first span tried is zero.
      have first : Fits low high (Float.ofBits ((high - low) / greatestFraction).toBits) := by
        apply fits_zero finite₂ ordered
        · rwa [IsFinite, Float.isFinite, Float.Model.isFinite, unpack_ofBits_toBits]
        · rwa [value, unpack_ofBits_toBits]
      generalize ((high - low) / greatestFraction).toBits = bits at first
      rw [← @UInt64.ofNat_toNat bits] at first
      generalize bits.toNat = n at first
      cases n with
      | zero => exact fits_zero finite₂ ordered isFinite_zero value_zero
      | succ n =>
        rw [fittingSpan, if_neg first.within]
        exact first
  · cases hs

/-- A fraction of a fitting span leads from `low` to a number that is not past `high`. -/
theorem step_between {f : Float} (h : low ≤ high) (hl : IsFinite low) (fits : Fits low high span)
    (hf : IsFinite f) (lower : 0 ≤ value f) (upper : value f ≤ value greatestFraction) :
    low ≤ f * span + low ∧ f * span + low ≤ high := by
  obtain ⟨numberLow, numberHigh, -⟩ := le_iff.mp h
  obtain ⟨greatest, greatestValue⟩ := value_greatestFraction
  have atMostOne : value greatestFraction ≤ 1 := by
    rw [greatestValue]
    norm_num
  obtain ⟨number, step⟩ := value_mul hf fits.finite
  obtain ⟨number', last⟩ := value_mul fits.finite greatest
  have ordered : value f * value span ≤ value span * value greatestFraction := by
    rw [mul_comm (value span)]
    exact mul_le_mul_of_nonneg_right upper fits.nonneg
  have below : value span * value greatestFraction ≤ value span :=
    mul_le_of_le_one_right fits.nonneg atMostOne
  have stepNonneg := mul_nonneg lower fits.nonneg
  obtain ⟨stepFinite, stepLower⟩ :=
    finite_of_rounded number step stepNonneg fits.finite (ordered.trans below)
  obtain ⟨lastFinite, -⟩ :=
    finite_of_rounded number' last (stepNonneg.trans ordered) fits.finite below
  obtain ⟨sumNumber, sum⟩ := value_add stepFinite hl
  obtain ⟨farthestNumber, farthest⟩ := value_add lastFinite hl
  have fitting : value (span * greatestFraction + low) ≤ value high := by
    by_contra past
    exact fits.within (lt_iff.mpr ⟨numberHigh, farthestNumber, not_le.mp past⟩)
  refine ⟨le_iff.mpr ⟨numberLow, sumNumber, ?_⟩, le_iff.mpr ⟨sumNumber, numberHigh, ?_⟩⟩
  · rw [sum]
    exact le_clip_rounded hl (le_add_of_nonneg_left stepLower)
  · calc
      value (f * span + low) = clip (rounded (value (f * span) + value low)) := sum
      _ ≤ clip (rounded (value (span * greatestFraction) + value low)) := by
        apply clip_mono
        apply rounded_mono
        rw [step, last]
        exact add_le_add_left (clip_mono (rounded_mono ordered)) _
      _ = value (span * greatestFraction + low) := farthest.symm
      _ ≤ value high := fitting

theorem pick_between (word : UInt64) (h : low ≤ high) (hs : span? low high = some span) :
    low ≤ pick low span word ∧ pick low span word ≤ high := by
  obtain ⟨hl, fits⟩ := fits_span h hs
  obtain ⟨finite, k, small, fraction⟩ := value_fraction word
  apply step_between h hl fits finite
  · rw [fraction]
    positivity
  · have most : (k : ℚ) + 1 ≤ 2 ^ 52 := by exact_mod_cast small
    rw [fraction, value_greatestFraction.2]
    exact div_le_div_of_nonneg_right (by linarith) (by norm_num)

/-! ## The laws -/

instance : Scalar.Lawful Float where
  le_self_of_le h := by
    obtain ⟨hx, hy, -⟩ := le_iff.mp h
    exact ⟨le_iff.mpr ⟨hx, hx, le_refl _⟩, le_iff.mpr ⟨hy, hy, le_refl _⟩⟩
  le_trans h h' := by
    obtain ⟨hx, -, below⟩ := le_iff.mp h
    obtain ⟨-, hz, below'⟩ := le_iff.mp h'
    exact le_iff.mpr ⟨hx, hz, below.trans below'⟩
  le_total h h' := by
    obtain ⟨hx, -, -⟩ := le_iff.mp h
    obtain ⟨hy, -, -⟩ := le_iff.mp h'
    rcases le_total (value _) (value _) with below | above
    · exact .inl (le_iff.mpr ⟨hx, hy, below⟩)
    · exact .inr (le_iff.mpr ⟨hy, hx, above⟩)
  lt_iff := by
    intro x y
    rw [lt_iff, le_iff, le_iff]
    constructor
    · rintro ⟨hx, hy, below⟩
      exact ⟨⟨hx, hy, below.le⟩, fun above => not_le.mpr below above.2.2⟩
    · rintro ⟨⟨hx, hy, -⟩, not⟩
      exact ⟨hx, hy, not_le.mp fun above => not ⟨hy, hx, above⟩⟩
  zero_add := by
    intro x (finite : IsFinite x) _
    obtain ⟨number, sum⟩ := value_add isFinite_zero finite
    rw [value_zero, zero_add, clip_rounded finite] at sum
    exact ⟨le_iff.mpr ⟨number, finite.isNumber, sum.le⟩,
      le_iff.mpr ⟨finite.isNumber, number, sum.ge⟩⟩
  sub_le := by
    intro x y (hx : IsFinite x) (hy : IsFinite y) nonneg
    obtain ⟨number, difference⟩ := value_sub hx hy
    have lower := (le_iff.mp nonneg).2.2
    refine le_iff.mpr ⟨number, hx.isNumber, ?_⟩
    rw [difference]
    exact clip_rounded_le hx (sub_le_self _ lower)
  pick_between := pick_between

end ArenaAgent.Binary64
