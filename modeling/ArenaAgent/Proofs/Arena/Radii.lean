import ArenaAgent.Agent.Refusal
import ArenaAgent.Proofs.Arena.Lawful

/-!
Radii in metres. Distances are compared as squares of pixels, so a greater radius reaches farther
only as far as products of numbers keep their order.
-/
namespace ArenaAgent

namespace Scalar

/-- Numbers whose products keep their order. -/
class OrderedProducts (α : Type) [Scalar α] : Prop where
  mul_nonneg : ∀ {a c : α}, isFinite a = true → isFinite c = true → 0.0 ≤ a → 0.0 ≤ c → 0.0 ≤ a * c
  mul_le_mul_right : ∀ {a b c : α}, isFinite a = true → isFinite b = true → isFinite c = true →
    0.0 ≤ a → a ≤ b → 0.0 ≤ c → a * c ≤ b * c
  /-- Squares may be beyond all finite numbers, and so may what is squared. -/
  mul_self_le : ∀ {a b : α}, 0.0 ≤ a → a ≤ b → a * a ≤ b * b
  pixelsPerMeter_nonneg : isFinite (pixelsPerMeter : α) = true ∧ 0.0 ≤ (pixelsPerMeter : α)

variable {α : Type} [Scalar α] [Lawful α]

theorem lt_of_lt_of_le {a b c : α} (h : a < b) (h' : b ≤ c) : a < c := by
  obtain ⟨below, strict⟩ := lt_iff.mp h
  exact lt_iff.mpr ⟨le_trans below h', fun above => strict (le_trans h' above)⟩

end Scalar

variable {α : Type} [Scalar α] [Scalar.Lawful α] [Scalar.OrderedProducts α]

/-- Points within a radius are within every greater one. -/
theorem Point.Within.mono {p q : Point α} {r s : α} (finite : Scalar.isFinite r = true)
    (finite' : Scalar.isFinite s = true) (nonneg : 0.0 ≤ r) (le : r ≤ s) (h : p.Within q r) :
    p.Within q s := by
  obtain ⟨pixels, positive⟩ := Scalar.OrderedProducts.pixelsPerMeter_nonneg (α := α)
  have lower := Scalar.OrderedProducts.mul_nonneg finite pixels nonneg positive
  have farther := Scalar.OrderedProducts.mul_le_mul_right finite finite' pixels nonneg le positive
  exact Scalar.lt_of_lt_of_le h (Scalar.OrderedProducts.mul_self_le lower farther)

/-- Who is beyond the flee radius is beyond a sense radius that is not greater. -/
theorem Config.not_within_senseRadius {c : Config α} (checked : c.check = .ok ())
    (radii : c.senseRadius ≤ c.fleeRadius) {p q : Point α} (far : ¬ p.Within q c.fleeRadius) :
    ¬ p.Within q c.senseRadius := by
  obtain ⟨positive, -⟩ := (defect?_eq_none_iff c).mp (check_eq_ok_iff c |>.mp checked)
  obtain ⟨finite, above⟩ := positive .senseRadius (by decide)
  obtain ⟨finite', -⟩ := positive .fleeRadius (by decide)
  intro near
  exact far (near.mono finite finite' (Scalar.le_of_lt above) radii)

end ArenaAgent
