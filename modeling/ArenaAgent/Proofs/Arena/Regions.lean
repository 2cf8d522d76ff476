import ArenaAgent.Agent.Refusal
import ArenaAgent.Arena.Sample
import ArenaAgent.Proofs.Arena.Lawful

/-!
The regions of the arena. Whatever point is moved into a rectangle with room lands in it, and so
does a random point. The regions that an accepted configuration leaves to an agent lie in its arena.
-/
namespace ArenaAgent

open Scalar

variable {α : Type} [Scalar α] [Lawful α]

theorem Rng.between_mem {rng rng' : Rng} {low high x : α}
    (h : rng.between low high = .ok (x, rng')) : low ≤ x ∧ x ≤ high := by
  rw [Rng.between] at h
  split at h
  · rename_i ordered
    split at h
    · rename_i span fits
      cases h
      exact pick_between _ ordered fits
    · cases h
  · cases h

namespace Rect

/-- Every point lands in the rectangle, also one whose coordinates are no numbers. -/
theorem clamp_mem {r : Rect α} (h : r.Ordered) (p : Point α) : r.clamp p ∈ r :=
  have within {low high x : α} (h : low ≤ high) :
      low ≤ Scalar.min (Scalar.max x low) high ∧ Scalar.min (Scalar.max x low) high ≤ high :=
    ⟨le_min h (le_max_right (le_self_left h)), min_le_right (le_self_right h)⟩
  ⟨within h.1, within h.2⟩

theorem sample_mem {r : Rect α} {rng rng' : Rng} {p : Point α} (h : r.sample rng = .ok (p, rng')) :
    p ∈ r := by
  rw [sample] at h
  cases hx : rng.between r.min.x r.max.x with
  | error fault =>
    rw [hx] at h
    cases h
  | ok first =>
    obtain ⟨x, rng₁⟩ := first
    cases hy : rng₁.between r.min.y r.max.y with
    | error fault =>
      simp only [hx, hy] at h
      cases h
    | ok second =>
      simp only [hx, hy] at h
      cases h
      exact ⟨Rng.between_mem hx, Rng.between_mem hy⟩

end Rect

namespace Config

/-- A coordinate that keeps a margin from both edges lies between the edges. -/
theorem between_of_inset {width margin x : α} (hw : isFinite width = true)
    (hm : isFinite margin = true) (nonneg : 0.0 ≤ margin)
    (h : 0.0 + margin ≤ x ∧ x ≤ width - margin) : 0.0 ≤ x ∧ x ≤ width :=
  ⟨le_trans nonneg (le_trans (zero_add hm nonneg).2 h.1), le_trans h.2 (sub_le hw hm nonneg)⟩

/-- What an accepted configuration guarantees about the arena and its regions. -/
structure Roomy (c : Config α) : Prop where
  arena : c.arena.Ordered
  flee : c.fleeRegion.Ordered
  flee_sub : ∀ p ∈ c.fleeRegion, p ∈ c.arena
  wander_sub : ∀ p ∈ c.wanderRegion, p ∈ c.arena

theorem roomy_of_check {c : Config α} (h : c.check = .ok ()) : c.Roomy := by
  obtain ⟨positive, nonNegative, flee, -, -⟩ :=
    (defect?_eq_none_iff c).mp (check_eq_ok_iff c |>.mp h)
  obtain ⟨finiteWidth, width⟩ := positive .arenaWidth (by decide)
  obtain ⟨finiteHeight, height⟩ := positive .arenaHeight (by decide)
  have inside (parameter : Parameter) (mem : parameter ∈ Parameter.nonNegative) :
      ∀ p ∈ c.arena.inset (c.value parameter), p ∈ c.arena := by
    intro p hp
    obtain ⟨finite, nonneg⟩ := nonNegative parameter mem
    exact ⟨between_of_inset finiteWidth finite nonneg hp.1,
      between_of_inset finiteHeight finite nonneg hp.2⟩
  exact ⟨⟨le_of_lt width, le_of_lt height⟩, flee, inside .fleeMargin (by decide),
    inside .wanderMargin (by decide)⟩

end Config

end ArenaAgent
