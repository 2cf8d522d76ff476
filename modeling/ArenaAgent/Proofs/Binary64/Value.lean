import ArenaAgent.Binary64
import ArenaAgent.Proofs.Binary64.Packing

/-!
Doubles as rational numbers. An infinity stands for the number that would come after the greatest
double; so packing clips values, and the order of doubles is that of their values.
-/
namespace ArenaAgent.Binary64

open Float.Model (UnpackedFloat Format)
open Float.Model.UnpackedFloat

/-! ## Values after packing -/

theorem limit_pos : 0 < limit :=
  pow_pos (by norm_num) _

theorem one_lt_limit : 1 < limit := by
  rw [limit]
  exact one_lt_pow₀ (by norm_num) (by norm_num)

/-- A value between the infinities. -/
def clip (q : ℚ) : ℚ :=
  max (-limit) (min q limit)

theorem clip_mono : Monotone clip :=
  fun _ _ h => max_le_max (le_refl _) (min_le_min_right _ h)

theorem clip_of_abs_le {q : ℚ} (h : |q| ≤ limit) : clip q = q := by
  obtain ⟨lower, upper⟩ := abs_le.mp h
  rw [clip, min_eq_left upper, max_eq_right lower]

theorem clip_of_le {q : ℚ} (h : limit ≤ q) : clip q = limit := by
  have := limit_pos
  rw [clip, min_eq_right h, max_eq_right (by linarith)]

theorem clip_neg (q : ℚ) : clip (-q) = -clip q := by
  have := limit_pos
  rw [clip, clip]
  rcases le_total q limit with h | h <;> rcases le_total (-limit) q with h' | h'
  · rw [min_eq_left (by linarith), max_eq_right (by linarith), min_eq_left h, max_eq_right h']
  · rw [min_eq_right (by linarith), max_eq_right (by linarith), min_eq_left h,
      max_eq_left h', neg_neg]
  · rw [min_eq_left (by linarith), max_eq_left (by linarith), min_eq_right h,
      max_eq_right (by linarith)]
  · linarith

theorem clip_signed (s : Sign) (q : ℚ) : clip (signed s q) = signed s (clip q) := by
  cases s with
  | positive => rfl
  | negative => exact clip_neg q

/-- A magnitude that can be packed is below the limit. -/
theorem magnitude_lt_limit {m : ℕ} {e : ℤ} (hm : m < 2 ^ 53) (he : e ≤ 971) :
    (m : ℚ) * 2 ^ e < limit := by
  have bits : (m : ℚ) < 2 ^ 53 := by exact_mod_cast hm
  calc
    (m : ℚ) * 2 ^ e < 2 ^ 53 * 2 ^ e := mul_lt_mul_of_pos_right bits (two_zpow_pos e)
    _ ≤ 2 ^ 53 * 2 ^ (971 : ℤ) :=
      mul_le_mul_of_nonneg_left (zpow_le_zpow_right₀ (by norm_num) he) (by positivity)
    _ = limit := by
      rw [limit, ← zpow_natCast, ← zpow_natCast, ← zpow_add₀ (by norm_num)]
      rfl

theorem limit_le_magnitude {m : ℕ} {e : ℤ} (hm : 2 ^ 52 ≤ m) (he : 972 ≤ e) :
    limit ≤ (m : ℚ) * 2 ^ e := by
  have bits : 2 ^ 52 ≤ (m : ℚ) := by exact_mod_cast hm
  calc
    limit = 2 ^ 52 * 2 ^ (972 : ℤ) := by
      rw [limit, ← zpow_natCast, ← zpow_natCast, ← zpow_add₀ (by norm_num)]
      rfl
    _ ≤ 2 ^ 52 * 2 ^ e :=
      mul_le_mul_of_nonneg_left (zpow_le_zpow_right₀ (by norm_num) he) (by positivity)
    _ ≤ m * 2 ^ e := mul_le_mul_of_nonneg_right bits (two_zpow_pos e).le

theorem abs_signed {s : Sign} {q : ℚ} (h : 0 ≤ q) : |signed s q| = q := by
  cases s with
  | positive => exact abs_of_nonneg h
  | negative => rw [signed, abs_neg, abs_of_nonneg h]

/-- Values lie between the infinities. -/
theorem abs_unpackedValue_le {u : UnpackedFloat} (h : Canonical u) (h' : Packable u) :
    |unpackedValue u| ≤ limit := by
  cases u with
  | infinity s => rw [unpackedValue, abs_signed limit_pos.le]
  | finite s m e hm =>
    have := two_zpow_pos e
    rw [unpackedValue, abs_signed (by positivity)]
    exact (magnitude_lt_limit h.1 h').le
  | notANumber | zero => simpa [unpackedValue] using limit_pos.le

/-- Packing clips the value. -/
theorem value_pack {u : UnpackedFloat} (h : Canonical u) :
    unpackedValue (Float.Model.pack u).unpack = clip (unpackedValue u) := by
  have packable (h' : Packable u) :
      unpackedValue (Float.Model.pack u).unpack = clip (unpackedValue u) := by
    rw [unpack_pack h h', clip_of_abs_le (abs_unpackedValue_le h h')]
  cases u with
  | notANumber | infinity | zero => exact packable trivial
  | finite s m e hm =>
    by_cases fits : e ≤ 971
    · exact packable fits
    · have normal : 2 ^ 52 ≤ m := h.2.2.resolve_right (by omega)
      rw [unpack_pack_finite s hm h, if_neg fits, unpackedValue, unpackedValue, clip_signed,
        clip_of_le (limit_le_magnitude normal (by omega))]

theorem value_pack_zero (s : Sign) : unpackedValue (Float.Model.pack (.zero s)).unpack = 0 := by
  cases s <;> rfl

theorem pack_eq_notANumber_iff {u : UnpackedFloat} (h : Canonical u) :
    (Float.Model.pack u).unpack = .notANumber ↔ u = .notANumber := by
  cases u with
  | notANumber | infinity | zero => rw [unpack_pack h trivial]
  | finite s m e hm =>
    rw [unpack_pack_finite s hm h]
    split <;> simp

/-! ## The order -/

/-- On the grid the exponent decides first. -/
theorem compare_magnitude {m n : ℕ} {e f : ℤ} (hm : m < 2 ^ 53) (hn : n < 2 ^ 53)
    (normal : 2 ^ 52 ≤ m ∨ e = -1074) (normal' : 2 ^ 52 ≤ n ∨ f = -1074) (he : -1074 ≤ e)
    (hf : -1074 ≤ f) :
    (compare e f).then (compare m n) = compare ((m : ℚ) * 2 ^ e) (n * 2 ^ f) := by
  have coarser {m n : ℕ} {e f : ℤ} (hm : m < 2 ^ 53) (hn : 2 ^ 52 ≤ n) (h : e < f) :
      (m : ℚ) * 2 ^ e < n * 2 ^ f := by
    have few : (m : ℚ) < 2 ^ 53 := by exact_mod_cast hm
    have many : 2 ^ 52 ≤ (n : ℚ) := by exact_mod_cast hn
    calc
      (m : ℚ) * 2 ^ e < 2 ^ 53 * 2 ^ e := mul_lt_mul_of_pos_right few (two_zpow_pos e)
      _ = 2 ^ 52 * 2 ^ (e + 1) := by
        rw [zpow_add₀ (by norm_num)]
        ring
      _ ≤ 2 ^ 52 * 2 ^ f :=
        mul_le_mul_of_nonneg_left (zpow_le_zpow_right₀ (by norm_num) h) (by positivity)
      _ ≤ n * 2 ^ f := mul_le_mul_of_nonneg_right many (two_zpow_pos f).le
  rcases lt_trichotomy e f with lt | rfl | gt
  · rw [compare_lt_iff_lt.mpr lt,
      compare_lt_iff_lt.mpr (coarser hm (normal'.resolve_right (by omega)) lt)]
    rfl
  · have scale := two_zpow_pos e
    rw [compare_eq_iff_eq.mpr rfl]
    rcases lt_trichotomy m n with lt | rfl | gt
    · have : (m : ℚ) * 2 ^ e < n * 2 ^ e := mul_lt_mul_of_pos_right (by exact_mod_cast lt) scale
      rw [compare_lt_iff_lt.mpr lt, compare_lt_iff_lt.mpr this]
      rfl
    · rw [compare_eq_iff_eq.mpr rfl, compare_eq_iff_eq.mpr rfl]
      rfl
    · have : (n : ℚ) * 2 ^ e < m * 2 ^ e := mul_lt_mul_of_pos_right (by exact_mod_cast gt) scale
      rw [compare_gt_iff_gt.mpr gt, compare_gt_iff_gt.mpr this]
      rfl
  · rw [compare_gt_iff_gt.mpr gt,
      compare_gt_iff_gt.mpr (coarser hn (normal.resolve_right (by omega)) gt)]
    rfl

/-- Where the values of finite doubles other than zero lie. -/
theorem magnitude_bounds {s : Sign} {m : ℕ} {e : ℤ} {hm : 0 < m} (h : Canonical (.finite s m e hm))
    (h' : Packable (.finite s m e hm)) : (0 : ℚ) < m * 2 ^ e ∧ (m : ℚ) * 2 ^ e < limit :=
  ⟨mul_pos (by exact_mod_cast hm) (two_zpow_pos e), magnitude_lt_limit h.1 h'⟩

/-- Numbers compare as their values do. -/
theorem compare_eq {u v : UnpackedFloat} (hu : Canonical u ∧ Packable u)
    (hv : Canonical v ∧ Packable v) (number : u ≠ .notANumber) (number' : v ≠ .notANumber) :
    u.compare v = some (compare (unpackedValue u) (unpackedValue v)) := by
  have limit_pos := limit_pos
  have lt {p q : ℚ} (h : p < q) : some Ordering.lt = some (compare p q) :=
    congrArg some (compare_lt_iff_lt.mpr h).symm
  have gt {p q : ℚ} (h : q < p) : some Ordering.gt = some (compare p q) :=
    congrArg some (compare_gt_iff_gt.mpr h).symm
  have eq {p q : ℚ} (h : p = q) : some Ordering.eq = some (compare p q) :=
    congrArg some (compare_eq_iff_eq.mpr h).symm
  cases u with
  | notANumber => exact absurd rfl number
  | infinity s =>
    cases v with
    | notANumber => exact absurd rfl number'
    | infinity s' =>
      cases s <;> cases s' <;> simp only [unpackedValue, signed]
      · exact eq rfl
      · exact lt (by linarith)
      · exact gt (by linarith)
      · exact eq rfl
    | zero s' =>
      cases s <;> simp only [unpackedValue, signed]
      · exact lt (by linarith)
      · exact gt (by linarith)
    | finite s' n f hn =>
      obtain ⟨pos', bound'⟩ := magnitude_bounds hv.1 hv.2
      cases s <;> cases s' <;> simp only [unpackedValue, signed]
      · exact lt (by linarith)
      · exact lt (by linarith)
      · exact gt (by linarith)
      · exact gt (by linarith)
  | zero s =>
    cases v with
    | notANumber => exact absurd rfl number'
    | infinity s' =>
      cases s' <;> simp only [unpackedValue, signed]
      · exact gt (by linarith)
      · exact lt (by linarith)
    | zero s' => exact eq rfl
    | finite s' n f hn =>
      obtain ⟨pos', bound'⟩ := magnitude_bounds hv.1 hv.2
      cases s' <;> simp only [unpackedValue, signed]
      · exact gt (by linarith)
      · exact lt (by linarith)
  | finite s m e hm =>
    obtain ⟨pos, bound⟩ := magnitude_bounds hu.1 hu.2
    obtain ⟨small, finest, normal⟩ := hu.1
    cases v with
    | notANumber => exact absurd rfl number'
    | infinity s' =>
      cases s <;> cases s' <;> simp only [unpackedValue, signed]
      · exact gt (by linarith)
      · exact lt (by linarith)
      · exact gt (by linarith)
      · exact lt (by linarith)
    | zero s' =>
      cases s <;> simp only [unpackedValue, signed]
      · exact lt (by linarith)
      · exact gt (by linarith)
    | finite s' n f hn =>
      obtain ⟨pos', bound'⟩ := magnitude_bounds hv.1 hv.2
      obtain ⟨small', finest', normal'⟩ := hv.1
      have same := compare_magnitude small small' normal normal' finest finest'
      cases s <;> cases s' <;> simp only [unpackedValue, signed]
      · -- Of two negative numbers the one of greater magnitude is the smaller one.
        simp only [UnpackedFloat.compare, same]
        rcases lt_trichotomy ((m : ℚ) * 2 ^ e) (n * 2 ^ f) with h | h | h
        · rw [compare_lt_iff_lt.mpr h]
          exact gt (neg_lt_neg h)
        · rw [compare_eq_iff_eq.mpr h]
          exact eq (congrArg _ h)
        · rw [compare_gt_iff_gt.mpr h]
          exact lt (neg_lt_neg h)
      · exact lt (by linarith)
      · exact gt (by linarith)
      · simp only [UnpackedFloat.compare, same]

/-- The number for which a double stands. -/
def value (x : Float) : ℚ :=
  unpackedValue x.toModel.unpack

/-- Not the double that stands for no number. -/
def IsNumber (x : Float) : Prop :=
  x.toModel.unpack ≠ .notANumber

theorem isNaN_iff {x : Float} : x.isNaN = true ↔ ¬ IsNumber x := by
  rw [IsNumber, not_ne_iff, Float.isNaN, Float.Model.isNaN]
  cases x.toModel.unpack <;> simp [UnpackedFloat.isNaN]

theorem compare_unpack {x y : Float} (hx : IsNumber x) (hy : IsNumber y) :
    x.toModel.unpack.compare y.toModel.unpack = some (compare (value x) (value y)) :=
  compare_eq (canonical_unpack _) (canonical_unpack _) hx hy

theorem compare_of_not_isNumber {x y : Float} (h : ¬ (IsNumber x ∧ IsNumber y)) :
    x.toModel.unpack.compare y.toModel.unpack = none := by
  simp only [IsNumber] at h
  generalize x.toModel.unpack = u at h ⊢
  generalize y.toModel.unpack = v at h ⊢
  cases u with
  | notANumber => rfl
  | _ =>
    cases v with
    | notANumber => rfl
    | _ => exact absurd ⟨nofun, nofun⟩ h

theorem le_iff {x y : Float} : x ≤ y ↔ IsNumber x ∧ IsNumber y ∧ value x ≤ value y := by
  have test : x ≤ y ↔ (x.toModel.unpack.compare y.toModel.unpack).any (·.isLE) = true :=
    decide_eq_true_iff
  rw [test]
  by_cases numbers : IsNumber x ∧ IsNumber y
  · rw [compare_unpack numbers.1 numbers.2, Option.any_some, Ordering.isLE_iff_ne_gt, ← ne_eq,
      compare_le_iff_le]
    simp [numbers.1, numbers.2]
  · rw [compare_of_not_isNumber numbers]
    exact ⟨nofun, fun h => absurd ⟨h.1, h.2.1⟩ numbers⟩

theorem lt_iff {x y : Float} : x < y ↔ IsNumber x ∧ IsNumber y ∧ value x < value y := by
  have test : x < y ↔ (x.toModel.unpack.compare y.toModel.unpack == some .lt) = true :=
    decide_eq_true_iff
  rw [test]
  by_cases numbers : IsNumber x ∧ IsNumber y
  · rw [compare_unpack numbers.1 numbers.2, ← compare_lt_iff_lt]
    simp [numbers.1, numbers.2]
  · rw [compare_of_not_isNumber numbers]
    exact ⟨nofun, fun h => absurd ⟨h.1, h.2.1⟩ numbers⟩

end ArenaAgent.Binary64
