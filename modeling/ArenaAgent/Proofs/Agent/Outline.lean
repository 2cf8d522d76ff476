import ArenaAgent.Proofs.Agent.Containment
import ArenaAgent.Proofs.Binary64.Extents

/-!
The box around an agent. Half its side is the one parameter that no demand is made on: the box
holds the agent as long as it is not negative (`box_holds_agent`), and a negative one puts the
corners in the wrong order.
-/
namespace ArenaAgent

open Scalar

namespace Rect

variable {p : Point Float} {half : Float}

/-- Half a side that is not negative. -/
theorem mem_around (finite : p.IsFinite) (h : 0.0 ≤ half) : p ∈ around p half :=
  ⟨Binary64.sub_le_le_add finite.1 h, Binary64.sub_le_le_add finite.2 h⟩

theorem nonneg_or_nonpos_of_ordered (h : (around p half).Ordered) : 0.0 ≤ half ∨ half ≤ 0.0 := by
  have number := Binary64.isNumber_of_sub h.1
  have zero := Measures.le_self (Measures.isFinite_zero (α := Float))
  exact Lawful.le_total zero (Binary64.le_iff.mpr ⟨number, number, le_refl _⟩)

/-- The corners are in order only if the point is in the middle. -/
theorem ordered_around_iff (finite : p.IsFinite) : (around p half).Ordered ↔ p ∈ around p half := by
  constructor
  · intro ordered
    rcases nonneg_or_nonpos_of_ordered ordered with nonneg | nonpos
    · exact mem_around finite nonneg
    · obtain ⟨x, y⟩ := ordered
      obtain ⟨right, left⟩ := Binary64.le_sub_add_le finite.1 nonpos
      obtain ⟨above, below⟩ := Binary64.le_sub_add_le finite.2 nonpos
      exact ⟨⟨le_trans x left, le_trans right x⟩, le_trans y below, le_trans above y⟩
  · rintro ⟨x, y⟩
    exact ⟨le_trans x.1 x.2, le_trans y.1 y.2⟩

/-- A negative half side leaves a point in its box only if it is too small to move a
corner off the point. -/
theorem mem_around_iff (finite : p.IsFinite) :
    p ∈ around p half ↔ 0.0 ≤ half ∨ (around p half).min.Same p ∧ (around p half).max.Same p := by
  constructor
  · intro inside
    rcases nonneg_or_nonpos_of_ordered ((ordered_around_iff finite).mpr inside) with nonneg | nonpos
    · exact .inl nonneg
    · obtain ⟨right, left⟩ := Binary64.le_sub_add_le finite.1 nonpos
      obtain ⟨above, below⟩ := Binary64.le_sub_add_le finite.2 nonpos
      exact .inr ⟨⟨⟨inside.1.1, right⟩, inside.2.1, above⟩, ⟨left, inside.1.2⟩, below, inside.2.2⟩
  · rintro (nonneg | ⟨lower, upper⟩)
    · exact mem_around finite nonneg
    · exact ⟨⟨lower.1.1, upper.1.2⟩, lower.2.1, upper.2.2⟩

end Rect

namespace Agent

theorem outline_mem_drawings_iff (a : Agent Float) (r : Rect Float) :
    .outline r ∈ a.drawings ↔ r = a.box := by
  simp [drawings]

/-- At every moment of its life the box around an agent is the one that is drawn for it, its corners
are in order exactly if the agent is in it, and so they are if half its side is not negative, be it
infinite. Otherwise they are only if it is so small that it is lost in rounding, and both corners
are where the agent is. -/
theorem box_holds_agent {spec : AgentSpec Float} {entropy : Rng} {a₀ a : Agent Float}
    {os : List (Operation Float)} (built : spec.build entropy = .ok a₀)
    (lived : a₀.live os = .ok a) :
    (∀ r, .outline r ∈ a.drawings ↔ r = a.box) ∧ (a.box.Ordered ↔ a.body.position ∈ a.box) ∧
      (a.body.position ∈ a.box ↔ 0.0 ≤ spec.config.halfExtent ∨
        a.box.min.Same a.body.position ∧ a.box.max.Same a.body.position) := by
  obtain ⟨checked, -⟩ := AgentSpec.build_ok built
  obtain ⟨roomy, placed⟩ := placed_build built
  have now := placed_live roomy placed lived
  have finite := Config.finite_of_mem_arena checked now.arena
  refine ⟨a.outline_mem_drawings_iff, Rect.ordered_around_iff finite, ?_⟩
  rw [← now.config]
  exact Rect.mem_around_iff finite

/-- An agent in a corner of the arena, among doubles: it walks to a stop, and
its box is infinite. -/
theorem endless_box :
    ∃ a₀ a : Agent Float,
      AgentSpec.build
          ⟨{ Config.shipped with halfExtent := 1.0 / 0.0 }, some ⟨0.0, 1024.0⟩, some 5⟩ 0 =
        .ok a₀ ∧
      a₀.live [.update ⟨⟨1200.0, 1000.0⟩, 0⟩ 20.0, .collide scoringGroup] = .ok a ∧
      a.box.Ordered ∧ a.body.position ∈ a.box ∧ .outline a.box ∈ a.drawings := by
  obtain ⟨a₀, a, built, lived, -⟩ := exists_life
    ⟨{ Config.shipped with halfExtent := 1.0 / 0.0 }, some ⟨(0.0 : Float), 1024.0⟩, some 5⟩ 0
    [.update ⟨⟨1200.0, 1000.0⟩, 0⟩ 20.0, .collide scoringGroup] (P := fun _ => True)
    (by decide +kernel)
  obtain ⟨drawn, ordered, holds⟩ := box_holds_agent built lived
  have inside := holds.mpr (.inl (by decide +kernel))
  exact ⟨a₀, a, built, lived, ordered.mpr inside, inside, (drawn _).mpr rfl⟩

/-- An accepted configuration with a negative half side: the box is inside out, and the
agent is not in it. -/
theorem box_inside_out :
    ∃ a₀ a : Agent Float,
      AgentSpec.build
          ⟨{ Config.shipped with halfExtent := 0.0 - 50.0 }, some ⟨300.0, 400.0⟩, some 5⟩ 0 =
        .ok a₀ ∧
      a₀.live [.collide scoringGroup, .draw] = .ok a ∧ a.body.config.check = .ok () ∧
      ¬ a.box.Ordered ∧ a.body.position ∉ a.box := by
  obtain ⟨a₀, a, built, lived, inverted, outside⟩ := exists_life
    ⟨{ Config.shipped with halfExtent := 0.0 - 50.0 }, some ⟨(300.0 : Float), 400.0⟩, some 5⟩ 0
    [.collide scoringGroup, .draw] (P := fun a => ¬ a.box.Ordered ∧ a.body.position ∉ a.box)
    (by decide +kernel)
  have checked := (AgentSpec.build_ok built).1
  have placed := placed_live (Config.roomy_of_check checked) (placed_build built).2 lived
  exact ⟨a₀, a, built, lived, placed.config ▸ checked, inverted, outside⟩

end Agent

end ArenaAgent
