import ArenaAgent.Proofs.Arena.Zeros

/-!
Distances, and steps of no length. Between finite points there is a distance, possibly an infinite
one, and a step of no length at a finite angle leads from a point to the same point.
-/
namespace ArenaAgent

namespace Scalar

/-- Numbers by which distances can be measured: differences, squares, sums and roots of what is
measured are numbers, and nothing comes of a zero. -/
class Measures (α : Type) [Scalar α] : Prop where
  isFinite_zero : isFinite (0.0 : α) = true
  isFinite_between : ∀ {a b c : α}, isFinite a = true → isFinite c = true → a ≤ b → b ≤ c →
    isFinite b = true
  le_self : ∀ {a : α}, isFinite a = true → a ≤ a
  sub_le_self : ∀ {a b : α}, isFinite a = true → isFinite b = true → a - b ≤ a - b
  square_nonneg : ∀ {a : α}, a ≤ a → 0.0 ≤ a * a
  add_nonneg : ∀ {a b : α}, 0.0 ≤ a → 0.0 ≤ b → 0.0 ≤ a + b
  sqrt_nonneg : ∀ {a : α}, 0.0 ≤ a → 0.0 ≤ sqrt a
  mul_zero : ∀ {a : α}, isFinite a = true → Same (a * 0.0) 0.0
  zero_mul : ∀ {z a : α}, Same z 0.0 → isFinite a = true → Same (z * a) 0.0
  add_zero : ∀ {a z : α}, isFinite a = true → Same z 0.0 → Same (a + z) a

/-- Numbers of which nothing is left over: equal ones differ by a zero, and the root of a
zero is a zero. -/
class Cancels (α : Type) [Scalar α] : Prop where
  sub_same : ∀ {a b : α}, isFinite a = true → isFinite b = true → Same a b → Same (a - b) 0.0
  sqrt_zero : ∀ {z : α}, Same z 0.0 → Same (sqrt z) 0.0

/-- Angles as they are documented: that of any vector with coordinates is finite, also after half a
turn, and sines and cosines of finite angles are finite. -/
class Angles (α : Type) [Scalar α] : Prop where
  isFinite_atan2 : ∀ {x y : α}, x ≤ x → y ≤ y →
    isFinite (atan2 y x) = true ∧ isFinite (atan2 y x + pi) = true
  isFinite_sin : ∀ {a : α}, isFinite a = true → isFinite (sin a) = true
  isFinite_cos : ∀ {a : α}, isFinite a = true → isFinite (cos a) = true

variable {α : Type} [Scalar α] [Lawful α] {a b c : α}

theorem Same.max (h : Same a b) (c : α) : Same (Scalar.max a c) (Scalar.max b c) := by
  simp only [Scalar.max, if_pos (le_self_left h.1), if_pos (le_self_right h.1)]
  by_cases below : a ≤ c
  · rw [if_pos below, if_pos (le_trans h.2 below)]
    exact ⟨le_self_right below, le_self_right below⟩
  · rw [if_neg below, if_neg fun below' => below (le_trans h.1 below')]
    exact h

theorem Same.min (h : Same a b) (c : α) : Same (Scalar.min a c) (Scalar.min b c) := by
  simp only [Scalar.min, if_pos (le_self_left h.1), if_pos (le_self_right h.1)]
  have alike : c < a ↔ c < b := by
    rw [lt_iff, lt_iff]
    constructor
    · rintro ⟨le, not⟩
      exact ⟨le_trans le h.1, fun ge => not (le_trans h.1 ge)⟩
    · rintro ⟨le, not⟩
      exact ⟨le_trans le h.2, fun ge => not (le_trans h.2 ge)⟩
  by_cases above : c < a
  · rw [if_pos above, if_pos (alike.mp above)]
    exact ⟨le_self_left (le_of_lt above), le_self_left (le_of_lt above)⟩
  · rw [if_neg above, if_neg fun above' => above (alike.mpr above')]
    exact h

theorem Same.lt_iff (h : Same a b) : a < c ↔ b < c := by
  rw [Scalar.lt_iff, Scalar.lt_iff]
  constructor
  · rintro ⟨le, not⟩
    exact ⟨le_trans h.2 le, fun ge => not (le_trans ge h.2)⟩
  · rintro ⟨le, not⟩
    exact ⟨le_trans h.1 le, fun ge => not (le_trans ge h.1)⟩

omit [Lawful α] in
theorem Same.finite [Measures α] (h : Same a b) (finite : isFinite b = true) : isFinite a = true :=
  Measures.isFinite_between finite finite h.2 h.1

theorem min_max_of_between (low : a ≤ b) (high : b ≤ c) :
    Same (Scalar.min (Scalar.max b a) c) b := by
  have inner : Same (Scalar.max b a) b := by
    rw [Scalar.max, if_pos (le_self_right low)]
    split
    · rename_i below
      exact ⟨low, below⟩
    · exact ⟨le_self_right low, le_self_right low⟩
  have outer : Same (Scalar.min b c) b := by
    rw [Scalar.min, if_pos (le_self_right low), if_neg fun above => (lt_iff.mp above).2 high]
    exact ⟨le_self_right low, le_self_right low⟩
  exact (inner.min c).trans outer

end Scalar

open Scalar

variable {α : Type} [Scalar α]

namespace Point

def IsFinite (p : Point α) : Prop :=
  Scalar.isFinite p.x = true ∧ Scalar.isFinite p.y = true

instance (p : Point α) : Decidable p.IsFinite :=
  inferInstanceAs (Decidable (_ ∧ _))

variable {p q r : Point α}

theorem Same.symm (h : p.Same q) : q.Same p :=
  ⟨h.1.symm, h.2.symm⟩

theorem Same.trans [Lawful α] (h : p.Same q) (h' : q.Same r) : p.Same r :=
  ⟨h.1.trans h'.1, h.2.trans h'.2⟩

variable [Measures α]

theorem IsFinite.same (h : p.IsFinite) : p.Same p :=
  ⟨⟨Measures.le_self h.1, Measures.le_self h.1⟩, Measures.le_self h.2, Measures.le_self h.2⟩

theorem Same.finite (h : p.Same q) (finite : q.IsFinite) : p.IsFinite :=
  ⟨h.1.finite finite.1, h.2.finite finite.2⟩

theorem dist_nonneg (hp : p.IsFinite) (hq : q.IsFinite) : 0.0 ≤ p.dist q :=
  Measures.sqrt_nonneg
    (Measures.add_nonneg (Measures.square_nonneg (Measures.sub_le_self hp.1 hq.1))
    (Measures.square_nonneg (Measures.sub_le_self hp.2 hq.2)))

/-- Equal points are no distance apart. -/
theorem Same.sqDist_zero [Lawful α] [Cancels α] (h : p.Same q) (hq : q.IsFinite) :
    Scalar.Same (p.sqDist q) 0.0 := by
  have hp := h.finite hq
  have square {z : α} (zero : Scalar.Same z 0.0) : Scalar.Same (z * z) 0.0 :=
    Measures.zero_mul zero (zero.finite Measures.isFinite_zero)
  have x := square (Cancels.sub_same hp.1 hq.1 h.1)
  have y := square (Cancels.sub_same hp.2 hq.2 h.2)
  exact (Measures.add_zero (x.finite Measures.isFinite_zero) y).trans x

theorem Same.dist_zero [Lawful α] [Cancels α] (h : p.Same q) (hq : q.IsFinite) :
    Scalar.Same (p.dist q) 0.0 :=
  Cancels.sqrt_zero (h.sqDist_zero hq)

variable [Angles α]

theorem bearing_finite (hp : p.IsFinite) (hq : q.IsFinite) :
    Scalar.isFinite (p.bearing q) = true ∧ Scalar.isFinite (p.bearing q + Scalar.pi) = true :=
  Angles.isFinite_atan2 (Measures.sub_le_self hq.1 hp.1) (Measures.sub_le_self hq.2 hp.2)

/-- A step of no length. -/
theorem polar_same (hp : p.IsFinite) {angle distance : α} (finite : Scalar.isFinite angle = true)
    (none : Scalar.Same distance 0.0) : (p.polar angle distance).Same p :=
  ⟨Measures.add_zero hp.1 (Measures.zero_mul none (Angles.isFinite_cos finite)),
    Measures.add_zero hp.2 (Measures.zero_mul none (Angles.isFinite_sin finite))⟩

end Point

namespace Rect

variable [Lawful α] {r : Rect α} {p q : Point α}

theorem clamp_congr (h : p.Same q) : (r.clamp p).Same (r.clamp q) :=
  ⟨(h.1.max _).min _, (h.2.max _).min _⟩

/-- A point of the rectangle stays where it is. -/
theorem clamp_of_mem (h : p ∈ r) : (r.clamp p).Same p :=
  ⟨min_max_of_between h.1.1 h.1.2, min_max_of_between h.2.1 h.2.2⟩

end Rect

namespace Config

variable [Measures α] {c : Config α}

theorem finite_of_mem_arena (checked : c.check = .ok ()) {p : Point α} (h : p ∈ c.arena) :
    p.IsFinite := by
  obtain ⟨positive, -⟩ := (defect?_eq_none_iff c).mp (check_eq_ok_iff c |>.mp checked)
  have width := (positive .arenaWidth (by decide)).1
  have height := (positive .arenaHeight (by decide)).1
  exact ⟨Measures.isFinite_between Measures.isFinite_zero width h.1.1 h.1.2,
    Measures.isFinite_between Measures.isFinite_zero height h.2.1 h.2.2⟩

end Config

end ArenaAgent
