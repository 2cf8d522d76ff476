import ArenaAgent.Proofs.Arena.Zeros
import ArenaAgent.Proofs.Binary64.Lawful

/-!
Doubles of one value are one double, except for zero, of which there are two.
-/
namespace ArenaAgent.Binary64

open Float.Model (UnpackedFloat Format)
open Float.Model.UnpackedFloat

/-! ## What determines a double -/

/-- A number tells the fields from which it was unpacked. -/
theorem Fields.inj {s s' : Sign} {e e' : BitVec 11} {m m' : BitVec 52} {u v : UnpackedFloat}
    (hu : Fields s e m u) (hv : Fields s' e' m' v) (same : u = v) (number : u ≠ .notANumber) :
    s = s' ∧ e.toNat = e'.toNat ∧ m.toNat = m'.toNat := by
  have small := m.isLt
  have small' := m'.isLt
  cases hu with
  | notANumber => exact absurd rfl number
  | infinity he hm =>
    cases hv with
    | infinity he' hm' => exact ⟨UnpackedFloat.infinity.inj same, by omega, by omega⟩
    | _ => cases same
  | zero he hm =>
    cases hv with
    | zero he' hm' => exact ⟨UnpackedFloat.zero.inj same, by omega, by omega⟩
    | _ => cases same
  | subnormal he hm =>
    cases hv with
    | subnormal he' hm' =>
      obtain ⟨sign, mantissa, -⟩ := UnpackedFloat.finite.inj same
      exact ⟨sign, by omega, mantissa⟩
    | normal =>
      obtain ⟨-, mantissa, -⟩ := UnpackedFloat.finite.inj same
      omega
    | _ => cases same
  | normal lower upper =>
    cases hv with
    | subnormal =>
      obtain ⟨-, mantissa, -⟩ := UnpackedFloat.finite.inj same
      omega
    | normal lower' upper' =>
      obtain ⟨sign, mantissa, exponent⟩ := UnpackedFloat.finite.inj same
      exact ⟨sign, by omega, by omega⟩
    | _ => cases same

theorem bits_eq_of_unpack_eq {b b' : BitVec 64}
    (same : UnpackedFloat.unpack Format.binary64 b = UnpackedFloat.unpack Format.binary64 b')
    (number : UnpackedFloat.unpack Format.binary64 b ≠ .notANumber) : b = b' := by
  obtain ⟨sign, exponent, mantissa⟩ := (fields_unpack b).inj (fields_unpack b') same number
  rw [toNat_unpackExponent, toNat_unpackExponent] at exponent
  rw [toNat_unpackMantissa, toNat_unpackMantissa] at mantissa
  have half : b.toNat < 2 ^ 63 ↔ b'.toNat < 2 ^ 63 := by
    rcases lt_or_ge b.toNat (2 ^ 63) with h | h <;> rcases lt_or_ge b'.toNat (2 ^ 63) with h' | h'
    · exact iff_of_true h h'
    · rw [unpackSign_of_lt h, unpackSign_of_le h'] at sign
      cases sign
    · rw [unpackSign_of_le h, unpackSign_of_lt h'] at sign
      cases sign
    · exact iff_of_false (by omega) (by omega)
  have bound := b.isLt
  have bound' := b'.isLt
  exact BitVec.eq_of_toNat_eq (by omega)

variable {x y z : Float}

theorem eq_of_unpack_eq (same : x.toModel.unpack = y.toModel.unpack) (number : IsNumber x) :
    x = y := by
  have bits := bits_eq_of_unpack_eq same number
  rcases x with ⟨⟨⟨x⟩, hx⟩⟩
  rcases y with ⟨⟨⟨y⟩, hy⟩⟩
  obtain rfl : x = y := bits
  rfl

/-- Packed numbers that compare as equal are the same, or zeros. -/
theorem eq_of_compare_eq {u v : UnpackedFloat} (same : u.compare v = some .eq) :
    u = v ∨ (∃ s, u = .zero s) ∧ ∃ s, v = .zero s := by
  have mantissas {m n : ℕ} {e f : ℤ} (h : (compare e f).then (compare m n) = .eq) :
      m = n ∧ e = f := by
    obtain ⟨exponents, mantissas⟩ := Ordering.then_eq_eq.mp h
    exact ⟨compare_eq_iff_eq.mp mantissas, compare_eq_iff_eq.mp exponents⟩
  cases u with
  | notANumber => cases same
  | infinity s =>
    cases v with
    | infinity s' => cases s <;> cases s' <;> first | exact .inl rfl | cases same
    | _ => cases s <;> cases same
  | zero s =>
    cases v with
    | zero s' => exact .inr ⟨⟨s, rfl⟩, s', rfl⟩
    | infinity s' | finite s' => cases s' <;> cases same
    | notANumber => cases same
  | finite s m e hm =>
    cases v with
    | finite s' n f hn =>
      cases s <;> cases s'
      · obtain ⟨rfl, rfl⟩ := mantissas (Ordering.swap_eq_eq.mp (Option.some.inj same))
        exact .inl rfl
      · cases same
      · cases same
      · obtain ⟨rfl, rfl⟩ := mantissas (Option.some.inj same)
        exact .inl rfl
    | infinity s' => cases s' <;> cases same
    | zero s' => cases s <;> cases same
    | notANumber => cases same

/-! ## Zeros -/

/-- One of the two zeros. -/
def IsZero (x : Float) : Prop :=
  ∃ s, x.toModel.unpack = .zero s

theorem IsZero.value (h : IsZero x) : value x = 0 := by
  obtain ⟨s, zero⟩ := h
  rw [Binary64.value, zero, unpackedValue]

theorem IsZero.isFinite (h : IsZero x) : IsFinite x := by
  obtain ⟨s, zero⟩ := h
  rw [IsFinite, Float.isFinite, Float.Model.isFinite, zero]
  rfl

theorem same_iff : Scalar.Same x y ↔ IsNumber x ∧ IsNumber y ∧ value x = value y := by
  rw [Scalar.Same, le_iff, le_iff]
  constructor
  · rintro ⟨⟨hx, hy, below⟩, -, -, above⟩
    exact ⟨hx, hy, le_antisymm below above⟩
  · rintro ⟨hx, hy, same⟩
    exact ⟨⟨hx, hy, same.le⟩, hy, hx, same.ge⟩

theorem eq_or_isZero (h : Scalar.Same x y) : x = y ∨ IsZero x ∧ IsZero y := by
  obtain ⟨hx, hy, same⟩ := same_iff.mp h
  have compared := compare_unpack hx hy
  rw [compare_eq_iff_eq.mpr same] at compared
  exact (eq_of_compare_eq compared).imp_left fun same => eq_of_unpack_eq same hx

theorem isZero_iff : IsZero x ↔ Scalar.Same x 0.0 := by
  constructor
  · intro zero
    exact same_iff.mpr ⟨zero.isFinite.isNumber, isFinite_zero.isNumber, zero.value⟩
  · intro same
    rcases eq_or_isZero same with rfl | zeros
    · exact ⟨.positive, rfl⟩
    · exact zeros.1

theorem isZero_pack (s : Sign) : IsZero (.ofModel (.pack (.zero s))) :=
  ⟨s, unpack_pack trivial trivial⟩

theorem zero_add_zero (hx : IsZero x) (hy : IsZero y) : 0.0 + x = 0.0 + y := by
  obtain ⟨s, hx⟩ := hx
  obtain ⟨s', hy⟩ := hy
  change Float.ofModel
    (.pack (UnpackedFloat.add Format.binary64 (0.0 : Float).toModel.unpack x.toModel.unpack)) =
    .ofModel (.pack
      (UnpackedFloat.add Format.binary64 (0.0 : Float).toModel.unpack y.toModel.unpack))
  rw [hx, hy]
  cases s <;> cases s' <;> rfl

/-- Next to what is no zero, the sign of a zero does not count. -/
theorem sub_congr_of_isZero (hx : IsZero x) (hy : IsZero y) (hz : ¬ IsZero z) :
    z - x = z - y ∧ x - z = y - z := by
  obtain ⟨s, hx⟩ := hx
  obtain ⟨s', hy⟩ := hy
  have subtract (a b : Float) :
      a - b = .ofModel
        (.pack (UnpackedFloat.sub Format.binary64 a.toModel.unpack b.toModel.unpack)) := rfl
  rw [subtract z x, subtract z y, subtract x z, subtract y z, hx, hy]
  rw [IsZero] at hz
  generalize z.toModel.unpack = u at hz
  cases u with
  | zero s'' => exact absurd ⟨s'', rfl⟩ hz
  | notANumber | infinity | finite => exact ⟨rfl, rfl⟩

theorem isZero_sub_isZero (hx : IsZero x) (hy : IsZero y) : IsZero (x - y) := by
  obtain ⟨s, hx⟩ := hx
  obtain ⟨s', hy⟩ := hy
  change IsZero
    (.ofModel (.pack (UnpackedFloat.sub Format.binary64 x.toModel.unpack y.toModel.unpack)))
  rw [hx, hy]
  cases s <;> cases s' <;> exact isZero_pack _

/-- The square of a zero is the positive zero. -/
theorem square_isZero (hx : IsZero x) (hy : IsZero y) : x * x = y * y := by
  obtain ⟨s, hx⟩ := hx
  obtain ⟨s', hy⟩ := hy
  change Float.ofModel
    (.pack (UnpackedFloat.mul Format.binary64 x.toModel.unpack x.toModel.unpack)) =
    .ofModel (.pack (UnpackedFloat.mul Format.binary64 y.toModel.unpack y.toModel.unpack))
  rw [hx, hy]
  cases s <;> cases s' <;> rfl

instance : Scalar.ZerosAlike Float where
  eq_or_zeros h :=
    (eq_or_isZero h).imp_right fun zeros => ⟨isZero_iff.mp zeros.1, isZero_iff.mp zeros.2⟩
  zero_add_zero hz hw := zero_add_zero (isZero_iff.mpr hz) (isZero_iff.mpr hw)
  sub_zero_eq := by
    intro a z w positive hz hw
    refine (sub_congr_of_isZero (isZero_iff.mpr hz) (isZero_iff.mpr hw) fun zero => ?_).1
    have above := (lt_iff.mp positive).2.2
    rw [zero.value, value_zero] at above
    exact absurd above (lt_irrefl _)
  zero_sub_square := by
    intro a z w hz hw
    rw [← isZero_iff] at hz hw
    by_cases zero : IsZero a
    · exact square_isZero (isZero_sub_isZero hz zero) (isZero_sub_isZero hw zero)
    · rw [(sub_congr_of_isZero hz hw zero).2]

end ArenaAgent.Binary64
