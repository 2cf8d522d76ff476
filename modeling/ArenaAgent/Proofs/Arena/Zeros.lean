import ArenaAgent.Proofs.Arena.Regions

/-!
Numbers that compare as equal. They need not be the same number, as there may be several zeros, but
no region and no distance tells one zero from another.
-/
namespace ArenaAgent

namespace Scalar

/-- Numbers that compare as equal are one number, or they are zeros, which sums, differences and
squares do not tell apart. -/
class ZerosAlike (α : Type) [Scalar α] : Prop where
  eq_or_zeros : ∀ {a b : α}, Same a b → a = b ∨ Same a 0.0 ∧ Same b 0.0
  zero_add_zero : ∀ {z w : α}, Same z 0.0 → Same w 0.0 → 0.0 + z = 0.0 + w
  sub_zero_eq : ∀ {a z w : α}, 0.0 < a → Same z 0.0 → Same w 0.0 → a - z = a - w
  zero_sub_square : ∀ {a z w : α}, Same z 0.0 → Same w 0.0 → (z - a) * (z - a) = (w - a) * (w - a)

variable {α : Type} [Scalar α]

theorem Same.symm {a b : α} (h : Same a b) : Same b a :=
  ⟨h.2, h.1⟩

theorem Same.trans [Lawful α] {a b c : α} (h : Same a b) (h' : Same b c) : Same a c :=
  ⟨le_trans h.1 h'.1, le_trans h'.2 h.2⟩

variable [ZerosAlike α] {a b c : α}

theorem Same.eq_of_pos [Lawful α] (h : Same a b) (positive : 0.0 < a) : a = b := by
  rcases ZerosAlike.eq_or_zeros h with same | zeros
  · exact same
  · exact absurd zeros.1.1 (lt_iff.mp positive).2

theorem Same.zero_add_eq (h : Same a b) : 0.0 + a = 0.0 + b := by
  rcases ZerosAlike.eq_or_zeros h with same | zeros
  · rw [same]
  · exact ZerosAlike.zero_add_zero zeros.1 zeros.2

theorem Same.sub_eq (h : Same a b) (positive : 0.0 < c) : c - a = c - b := by
  rcases ZerosAlike.eq_or_zeros h with same | zeros
  · rw [same]
  · exact ZerosAlike.sub_zero_eq positive zeros.1 zeros.2

theorem Same.sub_square_eq (h : Same a b) : (a - c) * (a - c) = (b - c) * (b - c) := by
  rcases ZerosAlike.eq_or_zeros h with same | zeros
  · rw [same]
  · exact ZerosAlike.zero_sub_square zeros.1 zeros.2

end Scalar

open Scalar

variable {α : Type} [Scalar α] [ZerosAlike α]

/-- A distance does not tell zeros apart. -/
theorem Point.Same.dist_eq {p q : Point α} (h : p.Same q) (goal : Point α) :
    p.dist goal = q.dist goal := by
  rw [dist, dist, sqDist, sqDist, h.1.sub_square_eq, h.2.sub_square_eq]

/-- Arenas of equal size, with equal margins for random targets. -/
structure Config.SameWandering (c d : Config α) : Prop where
  width : Scalar.Same c.arenaWidth d.arenaWidth
  height : Scalar.Same c.arenaHeight d.arenaHeight
  margin : Scalar.Same c.wanderMargin d.wanderMargin

theorem Config.SameWandering.region_eq [Lawful α] {c d : Config α} (h : c.SameWandering d)
    (checked : c.check = .ok ()) : c.wanderRegion = d.wanderRegion := by
  obtain ⟨positive, -⟩ := (defect?_eq_none_iff c).mp (check_eq_ok_iff c |>.mp checked)
  have width : 0.0 < c.arenaWidth := (positive .arenaWidth (by decide)).2
  have height : 0.0 < c.arenaHeight := (positive .arenaHeight (by decide)).2
  simp only [wanderRegion, arena, Rect.ofSize, Rect.inset, Point.origin]
  rw [h.margin.zero_add_eq, h.margin.sub_eq width, h.margin.sub_eq height, h.width.eq_of_pos width,
    h.height.eq_of_pos height]

end ArenaAgent
