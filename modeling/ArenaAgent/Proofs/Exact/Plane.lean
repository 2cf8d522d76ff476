import Mathlib.Algebra.Order.Monoid.Prod
import Mathlib.Analysis.Convex.Basic
import ArenaAgent.Proofs.Arena.Distances
import ArenaAgent.Proofs.Exact.Reals

/-!
The plane over the reals. A step along the bearing of a point leads along the line to it, and a step
the other way along the same line away from it. Rectangles are convex, and what lies in one is not
moved by its clamp.
-/
namespace ArenaAgent

variable [Trigonometry]

namespace Exact

theorem max_eq (a b : ℝ) : Scalar.max a b = max a b := by
  rw [Scalar.max, if_pos (le_refl a)]
  split
  · rename_i below
    exact (max_eq_right below).symm
  · rename_i above
    exact (max_eq_left (le_of_not_ge above)).symm

theorem min_eq (a b : ℝ) : Scalar.min a b = min a b := by
  rw [Scalar.min, if_pos (le_refl a)]
  split
  · rename_i below
    exact (min_eq_right below.le).symm
  · rename_i above
    exact (min_eq_left (le_of_not_gt above)).symm

theorem pixelsPerMeter_pos : (0 : ℝ) < pixelsPerMeter := by
  rw [pixelsPerMeter]
  norm_num

end Exact

namespace Point

def pair (p : Point ℝ) : ℝ × ℝ :=
  (p.x, p.y)

theorem dist_eq (p q : Point ℝ) : p.dist q = √((p.x - q.x) ^ 2 + (p.y - q.y) ^ 2) := by
  rw [pow_two, pow_two]
  rfl

theorem zero_le_dist (p q : Point ℝ) : 0 ≤ p.dist q :=
  Real.sqrt_nonneg _

theorem dist_symm (p q : Point ℝ) : p.dist q = q.dist p := by
  rw [dist_eq, dist_eq, sub_sq_comm p.x, sub_sq_comm p.y]

theorem eq_of_same {p q : Point ℝ} (h : p.Same q) : p = q := by
  have x : p.x = q.x := le_antisymm h.1.1 h.1.2
  have y : p.y = q.y := le_antisymm h.2.1 h.2.2
  cases p
  cases q
  exact congrArg₂ Point.mk x y

theorem within_iff {radius : ℝ} (positive : 0 < radius) (p q : Point ℝ) :
    p.Within q radius ↔ p.dist q < radius * pixelsPerMeter := by
  have pixels : (0 : ℝ) < radius * pixelsPerMeter := mul_pos positive Exact.pixelsPerMeter_pos
  rw [Within, ← pow_two]
  exact (Real.sqrt_lt' pixels).symm

/-! ## Steps -/

/-- The point at a part of the way from `p` to `q`; a negative part leads away from `q`. -/
def along (p q : Point ℝ) (part : ℝ) : Point ℝ :=
  ⟨p.x + part * (q.x - p.x), p.y + part * (q.y - p.y)⟩

omit [Trigonometry] in
theorem along_mem_segment (p q : Point ℝ) {part : ℝ} (nonneg : 0 ≤ part) (le_one : part ≤ 1) :
    (p.along q part).pair ∈ segment ℝ p.pair q.pair := by
  rw [segment_eq_image']
  exact ⟨part, ⟨nonneg, le_one⟩, rfl⟩

omit [Trigonometry] in
theorem along_one (p q : Point ℝ) : p.along q 1 = q := by
  simp only [along, one_mul, add_sub_cancel]

theorem dist_along (p q : Point ℝ) {part : ℝ} (le_one : part ≤ 1) :
    (p.along q part).dist q = (1 - part) * p.dist q := by
  have left : 0 ≤ 1 - part := sub_nonneg.mpr le_one
  rw [dist_eq, dist_eq, ← Real.sqrt_sq left, ← Real.sqrt_mul (sq_nonneg _)]
  congr 1
  simp only [along]
  ring

theorem dist_mul_cos_bearing (p q : Point ℝ) : p.dist q * Scalar.cos (p.bearing q) = q.x - p.x := by
  rw [dist_symm]
  exact Trigonometry.cos_atan2 (q.x - p.x) (q.y - p.y)

theorem dist_mul_sin_bearing (p q : Point ℝ) : p.dist q * Scalar.sin (p.bearing q) = q.y - p.y := by
  rw [dist_symm]
  exact Trigonometry.sin_atan2 (q.x - p.x) (q.y - p.y)

variable {p q : Point ℝ} (apart : 0 < p.dist q)

include apart

theorem polar_bearing (step : ℝ) : p.polar (p.bearing q) step = p.along q (step / p.dist q) := by
  rw [polar, along, ← dist_mul_cos_bearing, ← dist_mul_sin_bearing, ← mul_assoc, ← mul_assoc,
    div_mul_cancel₀ _ apart.ne']

theorem polar_bearing_add_pi [Trigonometry.HalfTurns] (step : ℝ) :
    p.polar (p.bearing q + Scalar.pi) step = p.along q (-(step / p.dist q)) := by
  have cos : Scalar.cos (p.bearing q + Scalar.pi) = -Scalar.cos (p.bearing q) :=
    Trigonometry.HalfTurns.cos_add_pi _
  have sin : Scalar.sin (p.bearing q + Scalar.pi) = -Scalar.sin (p.bearing q) :=
    Trigonometry.HalfTurns.sin_add_pi _
  rw [polar, along, cos, sin, mul_neg, mul_neg, ← dist_mul_cos_bearing, ← dist_mul_sin_bearing,
    neg_mul, neg_mul, ← mul_assoc, ← mul_assoc, div_mul_cancel₀ _ apart.ne']

end Point

namespace Rect

theorem mem_iff_pair {p : Point ℝ} {r : Rect ℝ} :
    p ∈ r ↔ p.pair ∈ Set.Icc r.min.pair r.max.pair := by
  rw [mem_iff, Set.mem_Icc, Prod.le_def, Prod.le_def]
  exact and_and_and_comm

theorem mem_of_segment {p q m : Point ℝ} {r : Rect ℝ} (hp : p ∈ r) (hq : q ∈ r)
    (between : m.pair ∈ segment ℝ p.pair q.pair) : m ∈ r := by
  rw [mem_iff_pair] at *
  exact (convex_Icc r.min.pair r.max.pair).segment_subset hp hq between

theorem clamp_eq_of_mem {p : Point ℝ} {r : Rect ℝ} (h : p ∈ r) : r.clamp p = p :=
  Point.eq_of_same (clamp_of_mem h)

end Rect

end ArenaAgent
