import ArenaAgent.Proofs.Binary64.Distances

/-!
Numbers beside a finite double: what is left of it and what is right of it at a distance. A distance
may be infinite; one that is negative exchanges the sides, and one that is no number leaves none.
-/
namespace ArenaAgent.Binary64

open Float.Model (UnpackedFloat Format)
open Float.Model.UnpackedFloat

variable {x y z : Float}

theorem unpack_of_infinite (number : IsNumber y) (infinite : ¬ IsFinite y) :
    ∃ s, y.toModel.unpack = .infinity s := by
  change ¬ y.toModel.unpack.isFinite = true at infinite
  rw [IsNumber] at number
  generalize y.toModel.unpack = v at *
  cases v with
  | notANumber => exact absurd rfl number
  | zero | finite => exact absurd rfl infinite
  | infinity s => exact ⟨s, rfl⟩

/-- Next to an infinity a finite double does not count. -/
theorem unpack_add_sub_of_infinity {s : Sign} (hx : IsFinite x)
    (hy : y.toModel.unpack = .infinity s) :
    (x + y).toModel.unpack = .infinity s ∧ (x - y).toModel.unpack = .infinity (-s) := by
  change x.toModel.unpack.isFinite = true at hx
  change (Float.Model.pack
    (UnpackedFloat.add Format.binary64 x.toModel.unpack y.toModel.unpack)).unpack = _ ∧
    (Float.Model.pack
      (UnpackedFloat.sub Format.binary64 x.toModel.unpack y.toModel.unpack)).unpack = _
  rw [hy]
  generalize x.toModel.unpack = u at hx
  cases u with
  | infinity | notANumber => cases hx
  | zero | finite => exact ⟨unpack_pack trivial trivial, unpack_pack trivial trivial⟩

/-- A sum and a difference, as far as the second operand has a sign. -/
theorem value_beside (hx : IsFinite x) (hy : IsNumber y) :
    IsNumber (x + y) ∧ IsNumber (x - y) ∧
      (0 ≤ value y → value (x - y) ≤ value x ∧ value x ≤ value (x + y)) ∧
      (value y ≤ 0 → value x ≤ value (x - y) ∧ value (x + y) ≤ value x) := by
  by_cases finite : IsFinite y
  · obtain ⟨number, sum⟩ := value_add hx finite
    obtain ⟨number', difference⟩ := value_sub hx finite
    rw [sum, difference]
    refine ⟨number, number', fun nonneg => ⟨?_, ?_⟩, fun nonpos => ⟨?_, ?_⟩⟩
    · exact clip_rounded_le hx (sub_le_self _ nonneg)
    · exact le_clip_rounded hx (le_add_of_nonneg_right nonneg)
    · exact le_clip_rounded hx (by linarith)
    · exact clip_rounded_le hx (by linarith)
  · obtain ⟨s, infinite⟩ := unpack_of_infinite hy finite
    obtain ⟨sum, difference⟩ := unpack_add_sub_of_infinity hx infinite
    obtain ⟨lower, upper⟩ := abs_le.mp (abs_value_le x)
    have positive := limit_pos
    have amount : value y = signed s limit := by rw [value, infinite, unpackedValue]
    have total : value (x + y) = signed s limit := by rw [value, sum, unpackedValue]
    have rest : value (x - y) = -signed s limit := by
      rw [value, difference, unpackedValue, signed_neg]
    have number {u : Float} {s : Sign} (h : u.toModel.unpack = .infinity s) : IsNumber u := by
      intro none
      cases h.symm.trans none
    refine ⟨number sum, number difference, ?_, ?_⟩
    · intro nonneg
      cases s with
      | positive => exact ⟨rest.trans_le lower, upper.trans_eq total.symm⟩
      | negative => exact absurd nonneg (by rw [amount, signed]; linarith)
    · intro nonpos
      cases s with
      | positive => exact absurd nonpos (by rw [amount, signed]; linarith)
      | negative => exact ⟨upper.trans_eq (rest.trans (neg_neg limit)).symm, total.trans_le lower⟩

theorem sub_le_le_add (hx : IsFinite x) (h : 0.0 ≤ y) : x - y ≤ x ∧ x ≤ x + y := by
  obtain ⟨number, nonneg⟩ := nonneg_iff.mp h
  obtain ⟨sum, difference, beside, -⟩ := value_beside hx number
  obtain ⟨left, right⟩ := beside nonneg
  exact ⟨le_iff.mpr ⟨difference, hx.isNumber, left⟩, le_iff.mpr ⟨hx.isNumber, sum, right⟩⟩

theorem le_sub_add_le (hx : IsFinite x) (h : y ≤ 0.0) : x ≤ x - y ∧ x + y ≤ x := by
  obtain ⟨number, -, nonpos⟩ := le_iff.mp h
  obtain ⟨sum, difference, -, beside⟩ := value_beside hx number
  obtain ⟨right, left⟩ := beside nonpos
  exact ⟨le_iff.mpr ⟨hx.isNumber, difference, right⟩, le_iff.mpr ⟨sum, hx.isNumber, left⟩⟩

/-- Only a number has a number beside it at its distance. -/
theorem isNumber_of_sub (h : x - y ≤ z) : IsNumber y := by
  intro none
  refine (le_iff.mp h).1 ?_
  have rest (u : UnpackedFloat) :
      UnpackedFloat.sub Format.binary64 u .notANumber = .notANumber := by
    cases u <;> rfl
  change (Float.Model.pack
    (UnpackedFloat.sub Format.binary64 x.toModel.unpack y.toModel.unpack)).unpack = _
  rw [none, rest]
  exact unpack_pack trivial trivial

end ArenaAgent.Binary64
