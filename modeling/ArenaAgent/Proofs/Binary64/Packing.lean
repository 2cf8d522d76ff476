import ArenaAgent.Proofs.Binary64.Rounding

/-!
Doubles as bit patterns. A rounded number that is packed and unpacked again is what it was, or an
infinity if its exponent is too great.
-/
namespace ArenaAgent.Binary64

open Float.Model (UnpackedFloat Format totalExponent)
open Float.Model.UnpackedFloat

/-- Of an exponent that can be packed. -/
def Packable : UnpackedFloat → Prop
  | .finite _ _ e _ => e ≤ 971
  | _ => True

theorem unpackSign_packComponents {spec : Format} (s : Sign) (e : BitVec spec.exponentBits)
    (m : BitVec spec.mantissaBitsWithoutImplicit) :
    unpackSign (packComponents spec s e m) = s.toBitVec := by
  apply BitVec.eq_of_getLsbD_eq
  intro i hi
  obtain rfl : i = 0 := by omega
  simp [unpackSign, packComponents, BitVec.getLsbD_append, BitVec.getElem_append]

theorem ofBitVec_toBitVec (s : Sign) : Sign.ofBitVec s.toBitVec = s := by
  cases s <;> rfl

/-- The leading bit of a normal mantissa is not stored. -/
theorem toNat_leading_append (m : BitVec 52) : (1#1 ++ m).toNat = 2 ^ 52 + m.toNat := by
  rw [BitVec.toNat_append, ← Nat.shiftLeft_add_eq_or_of_lt m.isLt]
  rfl

inductive Fields (s : Sign) (e : BitVec 11) (m : BitVec 52) : UnpackedFloat → Prop
  | infinity (he : e.toNat = 2047) (hm : m.toNat = 0) : Fields s e m (.infinity s)
  | notANumber (he : e.toNat = 2047) (hm : m.toNat ≠ 0) : Fields s e m .notANumber
  | zero (he : e.toNat = 0) (hm : m.toNat = 0) : Fields s e m (.zero s)
  | subnormal (he : e.toNat = 0) (hm : 0 < m.toNat) : Fields s e m (.finite s m.toNat (-1074) hm)
  | normal (lower : 0 < e.toNat) (upper : e.toNat < 2047) :
      Fields s e m (.finite s (2 ^ 52 + m.toNat) (e.toNat - 1075) (by omega))

theorem Fields.unique {s : Sign} {e : BitVec 11} {m : BitVec 52} {u v : UnpackedFloat}
    (hu : Fields s e m u) (hv : Fields s e m v) : u = v := by
  cases hu <;> cases hv <;> first | rfl | omega

theorem fields_unpack (b : BitVec 64) :
    Fields (.ofBitVec (@unpackSign Format.binary64 b)) (@unpackExponent Format.binary64 b)
      (@unpackMantissa Format.binary64 b) (UnpackedFloat.unpack Format.binary64 b) := by
  generalize he : @unpackExponent Format.binary64 b = e
  generalize hm : @unpackMantissa Format.binary64 b = m
  simp only [UnpackedFloat.unpack, he, hm]
  split
  · rename_i full
    have he : e.toNat = 2047 := congrArg BitVec.toNat full
    split
    · rename_i zero
      exact .infinity he (congrArg BitVec.toNat zero)
    · rename_i nonzero
      exact .notANumber he fun h => nonzero (BitVec.eq_of_toNat_eq h)
  · rename_i notFull
    have upper : e.toNat ≠ 2047 := fun h => notFull (BitVec.eq_of_toNat_eq h)
    split
    · rename_i empty
      subst empty
      split
      · rename_i zero
        exact .zero rfl (congrArg BitVec.toNat zero)
      · rename_i nonzero
        exact .subnormal rfl (Nat.pos_of_ne_zero fun h => nonzero (BitVec.eq_of_toNat_eq h))
    · rename_i notEmpty
      have lower : e.toNat ≠ 0 := fun h => notEmpty (BitVec.eq_of_toNat_eq h)
      have bound : e.toNat < 2048 := e.isLt
      simp only [toNat_leading_append m]
      exact .normal (by omega) (by omega)

theorem fields_packComponents (s : Sign) (e : BitVec 11) (m : BitVec 52) :
    Fields s e m (UnpackedFloat.unpack Format.binary64 (packComponents Format.binary64 s e m)) := by
  have fields := fields_unpack (packComponents Format.binary64 s e m)
  rwa [unpackSign_packComponents, unpackExponent_packComponents, unpackMantissa_packComponents,
    ofBitVec_toBitVec] at fields

/-- What is unpacked can be packed again. -/
theorem canonical_unpack (b : BitVec 64) :
    Canonical (UnpackedFloat.unpack Format.binary64 b) ∧
      Packable (UnpackedFloat.unpack Format.binary64 b) := by
  have fields := fields_unpack b
  have mantissa : (@unpackMantissa Format.binary64 b).toNat < 2 ^ 52 := BitVec.isLt _
  generalize UnpackedFloat.unpack Format.binary64 b = u at fields
  cases fields with
  | infinity | notANumber | zero => exact ⟨trivial, trivial⟩
  | subnormal he hm => exact ⟨⟨by omega, le_refl _, .inr rfl⟩, by simp only [Packable]; omega⟩
  | normal lower upper =>
    exact ⟨⟨by omega, by omega, .inl (by omega)⟩, by simp only [Packable]; omega⟩

/-- A rounded number that is packed, as it is unpacked again. -/
theorem unpack_pack_finite (s : Sign) {m : ℕ} {e : ℤ} (hm : 0 < m)
    (h : Canonical (.finite s m e hm)) :
    (Float.Model.pack (.finite s m e hm)).unpack =
      if e ≤ 971 then .finite s m e hm else .infinity s := by
  obtain ⟨small, lower, normal⟩ := h
  have biased :
      (e + Format.binary64.exponentBias + Format.binary64.mantissaBitsWithoutImplicit).toNat =
      (e + 1075).toNat := by
    have : Format.binary64.exponentBias = 1023 := rfl
    simp only [this]
    omega
  change UnpackedFloat.unpack Format.binary64 (pack Format.binary64 (.finite s m e hm)) = _
  simp only [pack, biased]
  by_cases fits : e ≤ 971
  · have exponent : (BitVec.ofNat 11 (e + 1075).toNat).toNat = (e + 1075).toNat :=
      Nat.mod_eq_of_lt (by omega)
    rw [if_neg (by simp only [Nat.reducePow]; omega), if_pos fits]
    split
    · rename_i bits
      have leading : 2 ^ 52 ≤ m :=
        (Nat.le_log2 hm.ne').mp (by simp only [Format.mantissaBits] at bits; omega)
      have mantissa : (BitVec.ofNat 52 m).toNat = m - 2 ^ 52 := by
        rw [BitVec.toNat_ofNat, Nat.mod_eq_sub_mod leading, Nat.mod_eq_of_lt (by omega)]
      have fields := fields_packComponents s (BitVec.ofNat 11 (e + 1075).toNat) (BitVec.ofNat 52 m)
      refine (fields.unique (.normal (by omega) (by omega))).trans ?_
      have whole : 2 ^ 52 + (BitVec.ofNat 52 m).toNat = m := by omega
      have same : ((BitVec.ofNat 11 (e + 1075).toNat).toNat : ℤ) - 1075 = e := by omega
      simp only [whole, same]
    · rename_i bits
      have few : m < 2 ^ 52 := by
        have : ¬ 2 ^ 52 ≤ m := fun leading => bits (by
          have := (Nat.le_log2 hm.ne').mpr leading
          have := (Nat.log2_lt hm.ne').mpr small
          simp only [Format.mantissaBits]
          omega)
        omega
      obtain rfl : e = -1074 := normal.resolve_left (by omega)
      have mantissa : (BitVec.ofNat 52 m).toNat = m := Nat.mod_eq_of_lt few
      have fields := fields_packComponents s 0#11 (BitVec.ofNat 52 m)
      refine (fields.unique (.subnormal rfl (by omega))).trans ?_
      simp only [mantissa]
  · rw [if_pos (by simp only [Nat.reducePow]; omega), if_neg fits]
    exact (fields_packComponents s (-1#11) 0#52).unique (.infinity rfl rfl)

/-- Packing loses nothing of what can be packed. -/
theorem unpack_pack {u : UnpackedFloat} (h : Canonical u) (h' : Packable u) :
    (Float.Model.pack u).unpack = u := by
  cases u with
  | finite s m e hm => exact (unpack_pack_finite s hm h).trans (if_pos h')
  | notANumber => rfl
  | infinity s | zero s => cases s <;> rfl

/-! ## Fields as numbers -/

theorem toNat_unpackMantissa (b : BitVec 64) :
    (@unpackMantissa Format.binary64 b).toNat = b.toNat % 2 ^ 52 := by
  simp [unpackMantissa, BitVec.extractLsb]

theorem toNat_unpackExponent (b : BitVec 64) :
    (@unpackExponent Format.binary64 b).toNat = b.toNat / 2 ^ 52 % 2 ^ 11 := by
  simp [unpackExponent, BitVec.extractLsb, Nat.shiftRight_eq_div_pow]

theorem unpackSign_of_lt {b : BitVec 64} (h : b.toNat < 2 ^ 63) :
    Sign.ofBitVec (@unpackSign Format.binary64 b) = .positive := by
  have zero : (@unpackSign Format.binary64 b).toNat = 0 := by
    simp [unpackSign, BitVec.extractLsb, Nat.shiftRight_eq_div_pow]
    omega
  exact if_pos (BitVec.eq_of_toNat_eq zero)

theorem unpackSign_of_le {b : BitVec 64} (h : 2 ^ 63 ≤ b.toNat) :
    Sign.ofBitVec (@unpackSign Format.binary64 b) = .negative := by
  have one : (@unpackSign Format.binary64 b).toNat = 1 := by
    simp [unpackSign, BitVec.extractLsb, Nat.shiftRight_eq_div_pow]
    omega
  refine if_neg fun zero => ?_
  rw [zero] at one
  cases one

end ArenaAgent.Binary64
