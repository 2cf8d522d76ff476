import ArenaAgent.Proofs.Binary64.Value

/-!
Sums, differences and products of doubles. Each is the exact one on the grid, or an
infinity beyond it.
-/
namespace ArenaAgent.Binary64

open Float.Model (UnpackedFloat Format)
open Float.Model.UnpackedFloat

/-- A double other than the infinities that is a number. -/
def IsFinite (x : Float) : Prop :=
  x.isFinite = true

theorem IsFinite.isNumber {x : Float} (h : IsFinite x) : IsNumber x := by
  intro none
  rw [IsFinite, Float.isFinite, Float.Model.isFinite, none] at h
  cases h

theorem rounded_signed (s : Sign) {q : ℚ} (h : 0 ≤ q) :
    rounded (signed s q) = signed s (roundedMagnitude q) := by
  cases s with
  | positive => exact rounded_of_nonneg h
  | negative => rw [signed, signed, rounded_neg, rounded_of_nonneg h]

theorem rounded_unpackedValue {u : UnpackedFloat} (h : Canonical u) (finite : u.isFinite = true) :
    rounded (unpackedValue u) = unpackedValue u := by
  cases u with
  | infinity | notANumber => cases finite
  | zero s => rw [unpackedValue, rounded_of_nonneg (le_refl _), roundedMagnitude_zero]
  | finite s m e hm =>
    have := two_zpow_pos e
    rw [unpackedValue, rounded_signed s (by positivity), roundedMagnitude_of_grid h.1 h.2.1]

theorem rounded_value {x : Float} (h : IsFinite x) : rounded (value x) = value x :=
  rounded_unpackedValue (canonical_unpack _).1 h

theorem clip_value {x : Float} : clip (value x) = value x :=
  clip_of_abs_le (abs_unpackedValue_le (canonical_unpack _).1 (canonical_unpack _).2)

/-- The sum and the difference of two mantissas on the finer one of their grids. -/
theorem aligned_value (s : Sign) (m : ℕ) (e : ℤ) {f : ℤ} (h : f ≤ e) :
    ((s.apply ((decreaseExponent m e f).1 : ℤ) : ℤ) : ℚ) * 2 ^ f = signed s (m * 2 ^ e) := by
  obtain ⟨k, rfl⟩ := Int.le.dest h
  have amount : (f + k - f).toNat = k := by omega
  have same : ((m <<< k : ℕ) : ℚ) * 2 ^ f = m * 2 ^ (f + k) := by
    rw [Nat.shiftLeft_eq, zpow_add₀ (by norm_num), zpow_natCast]
    push_cast
    ring
  simp only [decreaseExponent, amount]
  cases s with
  | positive => rw [Sign.apply, Int.cast_natCast, signed, ← same]
  | negative =>
    rw [Sign.apply, Int.cast_neg, Int.cast_natCast, signed, ← same, neg_mul]

theorem HasSign.number {s : Sign} {w : UnpackedFloat} (h : HasSign s w) : w ≠ .notANumber := by
  cases h <;> exact nofun

/-- What is known of the outcome of an operation whose exact outcome is `q`. -/
structure Gives (w : UnpackedFloat) (q : ℚ) : Prop where
  value : unpackedValue w = rounded q
  canonical : Canonical w
  number : w ≠ .notANumber

theorem Gives.self {u : UnpackedFloat} (h : Canonical u) (finite : u.isFinite = true) :
    Gives u (unpackedValue u) :=
  ⟨(rounded_unpackedValue h finite).symm, h, by rintro rfl; cases finite⟩

theorem gives_normalize (n e : ℤ) (zeroSign : Sign) :
    Gives (UnpackedFloat.normalize Format.binary64 n e zeroSign) (n * 2 ^ e) := by
  obtain ⟨value, canonical⟩ := normalize_spec n e zeroSign
  refine ⟨value, canonical, ?_⟩
  rw [UnpackedFloat.normalize]
  split
  · exact (hasSign_roundWithAccuracy ..).number
  · intro absurd
    cases absurd
  · exact (hasSign_roundWithAccuracy ..).number

theorem gives_add {u v : UnpackedFloat} (hu : Canonical u) (hv : Canonical v)
    (finite : u.isFinite = true) (finite' : v.isFinite = true) :
    Gives (UnpackedFloat.add Format.binary64 u v) (unpackedValue u + unpackedValue v) := by
  cases u with
  | infinity | notANumber => cases finite
  | zero s =>
    cases v with
    | infinity | notANumber => cases finite'
    | zero s' =>
      have zero (s : Sign) := Gives.self (u := .zero s) trivial rfl
      simp only [UnpackedFloat.add, unpackedValue, add_zero]
      split <;> exact zero _
    | finite s' n f hn =>
      have same := Gives.self hv finite'
      rwa [← zero_add (unpackedValue _)] at same
  | finite s m e hm =>
    cases v with
    | infinity | notANumber => cases finite'
    | zero s' =>
      have same := Gives.self hu finite
      rwa [← add_zero (unpackedValue _)] at same
    | finite s' n f hn =>
      have sum := gives_normalize (s.apply (decreaseExponent m e (min e f)).1 +
        s'.apply (decreaseExponent n f (min e f)).1) (min e f) .positive
      rwa [Int.cast_add, add_mul, aligned_value s m e (min_le_left e f),
        aligned_value s' n f (min_le_right e f)] at sum

theorem signed_neg (s : Sign) (q : ℚ) : signed (-s) q = -signed s q := by
  cases s with
  | positive => rfl
  | negative => exact (neg_neg q).symm

theorem signed_mul (s s' : Sign) (p q : ℚ) :
    signed (s * s') (p * q) = signed s p * signed s' q := by
  cases s <;> cases s'
  · exact (neg_mul_neg p q).symm
  · exact (neg_mul p q).symm
  · exact (mul_neg p q).symm
  · rfl

/-- A difference is the sum with the negated second operand. -/
theorem sub_eq_add (u v : UnpackedFloat) :
    UnpackedFloat.sub Format.binary64 u v = UnpackedFloat.add Format.binary64 u v.neg := by
  cases u with
  | finite s m e hm =>
    cases v with
    | finite s' n f hn =>
      have negated (k : ℤ) : (-s').apply k = -s'.apply k := by
        cases s' with
        | positive => rfl
        | negative => exact (Int.neg_neg k).symm
      simp only [UnpackedFloat.sub, UnpackedFloat.neg, UnpackedFloat.add, negated,
        Int.sub_eq_add_neg]
    | _ => rfl
  | _ => cases v <;> rfl

theorem unpackedValue_neg (u : UnpackedFloat) : unpackedValue u.neg = -unpackedValue u := by
  cases u with
  | finite s | infinity s => exact signed_neg s _
  | zero | notANumber => exact neg_zero.symm

theorem gives_sub {u v : UnpackedFloat} (hu : Canonical u) (hv : Canonical v)
    (finite : u.isFinite = true) (finite' : v.isFinite = true) :
    Gives (UnpackedFloat.sub Format.binary64 u v) (unpackedValue u - unpackedValue v) := by
  rw [sub_eq_add, sub_eq_add_neg, ← unpackedValue_neg]
  cases v with
  | infinity | notANumber => cases finite'
  | zero => exact gives_add hu trivial finite rfl
  | finite => exact gives_add hu hv finite rfl

/-- The grid of a mantissa that has 53 bits or more is not finer than the mantissa's own. -/
theorem le_gridExponent {m : ℕ} {e : ℤ} (h : 2 ^ 52 ≤ m ∨ e ≤ -1074) :
    e ≤ gridExponent (m * 2 ^ e) := by
  rw [gridExponent]
  rcases h with many | small
  · have scale := two_zpow_pos e
    have bits : (2 : ℚ) ^ 52 ≤ m := by exact_mod_cast many
    have great : ((2 : ℕ) : ℚ) ^ (52 + e) ≤ m * 2 ^ e := by
      rw [Nat.cast_ofNat, zpow_add₀ (by norm_num)]
      exact mul_le_mul_of_nonneg_right bits scale.le
    have positive : (0 : ℚ) < m * 2 ^ e := lt_of_lt_of_le (zpow_pos (by norm_num) _) great
    have log := (Int.zpow_le_iff_le_log Nat.one_lt_two positive).mp great
    omega
  · omega

theorem gives_mul {u v : UnpackedFloat} (hu : Canonical u) (hv : Canonical v)
    (finite : u.isFinite = true) (finite' : v.isFinite = true) :
    Gives (UnpackedFloat.mul Format.binary64 u v) (unpackedValue u * unpackedValue v) := by
  have zero (s : Sign) := Gives.self (u := .zero s) trivial rfl
  cases u with
  | infinity | notANumber => cases finite
  | zero s =>
    rw [show unpackedValue (.zero s) = 0 from rfl, zero_mul]
    cases v with
    | infinity | notANumber => cases finite'
    | zero | finite => exact zero _
  | finite s m e hm =>
    cases v with
    | infinity | notANumber => cases finite'
    | zero s' =>
      rw [show unpackedValue (.zero s') = 0 from rfl, mul_zero]
      exact zero _
    | finite s' n f hn =>
      obtain ⟨small, finest, normal⟩ := hu
      obtain ⟨small', finest', normal'⟩ := hv
      have fine : e + f ≤ gridExponent ((m * n : ℕ) * 2 ^ (e + f)) := by
        apply le_gridExponent
        rcases normal with many | last
        · exact .inl (many.trans (Nat.le_mul_of_pos_right m hn))
        · rcases normal' with many' | last'
          · exact .inl (many'.trans (Nat.le_mul_of_pos_left n hm))
          · exact .inr (by omega)
      have product := roundWithAccuracy_spec (s * s') (Nat.mul_pos hm hn) fine
      have magnitude : ((m * n : ℕ) : ℚ) * 2 ^ (e + f) = m * 2 ^ e * (n * 2 ^ f) := by
        rw [zpow_add₀ (by norm_num)]
        push_cast
        ring
      rw [magnitude,
        ← rounded_signed _ (mul_nonneg (mul_nonneg (Nat.cast_nonneg m) (two_zpow_pos e).le)
        (mul_nonneg (Nat.cast_nonneg n) (two_zpow_pos f).le)), signed_mul] at product
      refine ⟨product.1, product.2, ?_⟩
      rw [UnpackedFloat.mul]
      exact (hasSign_roundWithAccuracy ..).number

/-! ## Doubles -/

theorem value_of_gives {w : UnpackedFloat} {q : ℚ} (h : Gives w q) :
    IsNumber (.ofModel (.pack w)) ∧ value (.ofModel (.pack w)) = clip (rounded q) := by
  refine ⟨fun none => h.number ((pack_eq_notANumber_iff h.canonical).mp none), ?_⟩
  rw [value, ← h.value]
  exact value_pack h.canonical

variable {x y : Float}

theorem value_add (hx : IsFinite x) (hy : IsFinite y) :
    IsNumber (x + y) ∧ value (x + y) = clip (rounded (value x + value y)) :=
  value_of_gives (gives_add (canonical_unpack _).1 (canonical_unpack _).1 hx hy)

theorem value_sub (hx : IsFinite x) (hy : IsFinite y) :
    IsNumber (x - y) ∧ value (x - y) = clip (rounded (value x - value y)) :=
  value_of_gives (gives_sub (canonical_unpack _).1 (canonical_unpack _).1 hx hy)

theorem value_mul (hx : IsFinite x) (hy : IsFinite y) :
    IsNumber (x * y) ∧ value (x * y) = clip (rounded (value x * value y)) :=
  value_of_gives (gives_mul (canonical_unpack _).1 (canonical_unpack _).1 hx hy)

end ArenaAgent.Binary64
