import ArenaAgent.Agent.Body.Walk
import ArenaAgent.Proofs.Agent.Demands
import ArenaAgent.Proofs.Binary64.Distances

/-!
A walk that is long enough lands on its goal, and walks to the same goal do not lead away from it
again, however far they could go (`landing_is_absorbing`).
-/
namespace ArenaAgent.Body

open Scalar

variable {α : Type} [Scalar α]

/-- Equal in what a walk starts from, but for the stride. -/
structure SameStance (b b' : Body α) : Prop where
  config : b'.config = b.config
  position : b'.position = b.position
  heading : b'.heading = b.heading

/-- Walks to one goal, one after the other, with the arrival radius and the answer of each. None of
them leads backwards. In between the body may perceive, score and turn to other things, as long as
it stays where it is. -/
inductive WalksOn (goal : Point α) : Body α → List (α × Status) → Body α → Prop where
  | stop {b : Body α} : WalksOn goal b [] b
  | walk {b b₁ b' : Body α} {arrival : α} {calls : List (α × Status)} (meanwhile : b.SameStance b₁)
      (forward : 0.0 ≤ b₁.stride) (further : WalksOn goal (b₁.walkTo goal arrival).2 calls b') :
      WalksOn goal b ((arrival, (b₁.walkTo goal arrival).1) :: calls) b'

/-- What a walk answers on its goal: whether the arrival radius has a square above zero. -/
def answerOnGoal (arrival : α) : Status :=
  if 0.0 < arrival * pixelsPerMeter * (arrival * pixelsPerMeter) then .success else .running

/-- A body that landed on its goal. -/
structure OnGoal (goal : Point α) (c : Config α) (heading : α) (b : Body α) : Prop where
  config : b.config = c
  position : b.position.Same goal
  heading : b.heading = heading

theorem OnGoal.of_sameStance {goal : Point α} {c : Config α} {heading : α} {b b' : Body α}
    (h : b.OnGoal goal c heading) (same : b.SameStance b') : b'.OnGoal goal c heading :=
  ⟨same.config.trans h.config, same.position.symm ▸ h.position, same.heading.trans h.heading⟩

variable [Lawful α] {b : Body α} {goal : Point α}

theorem stepTo_of_lands (inside : goal ∈ b.config.arena) (lands : b.position.dist goal ≤ b.stride) :
    (b.stepTo goal).Same goal := by
  rw [stepTo, if_pos lands]
  exact Rect.clamp_of_mem inside

variable [Measures α] [Cancels α]

theorem status_of_lands (finite : goal.IsFinite) (inside : goal ∈ b.config.arena)
    (lands : b.position.dist goal ≤ b.stride) (arrival : α) :
    (b.walkTo goal arrival).1 = answerOnGoal arrival := by
  have landed := stepTo_of_lands inside lands
  have apart : Scalar.Same (goal.sqDist (b.stepTo goal)) 0.0 :=
    landed.symm.sqDist_zero (landed.finite finite)
  exact if_congr apart.lt_iff rfl rfl

/-- On the goal nothing is left to walk, so every stride will do, and there is no
direction to turn to. -/
theorem OnGoal.walkTo {c : Config α} {heading : α} (finite : goal.IsFinite)
    (inside : goal ∈ c.arena) (h : b.OnGoal goal c heading) (forward : 0.0 ≤ b.stride)
    (arrival : α) :
    (b.walkTo goal arrival).1 = answerOnGoal arrival ∧
      (b.walkTo goal arrival).2.OnGoal goal c heading := by
  have left : Scalar.Same (b.position.dist goal) 0.0 := h.position.dist_zero finite
  -- even a stride of no length reaches a goal at no distance
  have lands : b.position.dist goal ≤ b.stride := le_trans left.1 forward
  have inside' : goal ∈ b.config.arena := h.config.symm ▸ inside
  have kept : b.headingTo goal = b.heading := if_neg fun above => (lt_iff.mp above).2 left.1
  exact ⟨status_of_lands finite inside' lands arrival, h.config, stepTo_of_lands inside' lands,
    kept.trans h.heading⟩

theorem WalksOn.onGoal {c : Config α} {heading : α} (finite : goal.IsFinite)
    (inside : goal ∈ c.arena) {calls : List (α × Status)} {b' : Body α}
    (later : WalksOn goal b calls b') (h : b.OnGoal goal c heading) :
    b'.OnGoal goal c heading ∧ ∀ call ∈ calls, call.2 = answerOnGoal call.1 := by
  induction later with
  | stop => exact ⟨h, nofun⟩
  | @walk b b₁ b' arrival calls meanwhile forward further ih =>
    obtain ⟨status, still⟩ := (h.of_sameStance meanwhile).walkTo finite inside forward arrival
    obtain ⟨last, answers⟩ := ih still
    exact ⟨last, List.forall_mem_cons.mpr ⟨status, answers⟩⟩

/-- A walk whose stride is at least the way that is left ends on the goal, and every later walk to
the same goal leaves the body there and its heading as it is, however long the stride. All of these
walks answer alike: `success` if the square of the arrival radius is above zero, and `running`
otherwise, for ever. -/
theorem landing_is_absorbing {b : Body Float} (checked : b.config.check = .ok ())
    {goal : Point Float} (inside : goal ∈ b.config.arena) (lands : b.position.dist goal ≤ b.stride)
    (arrival : Float) {calls : List (Float × Status)} {b' : Body Float}
    (later : WalksOn goal (b.walkTo goal arrival).2 calls b') :
    (b.walkTo goal arrival).2.position.Same goal ∧ b'.position.Same goal ∧
      b'.heading = (b.walkTo goal arrival).2.heading ∧
      ∀ call ∈ (arrival, (b.walkTo goal arrival).1) :: calls, call.2 = answerOnGoal call.1 := by
  have finite := Config.finite_of_mem_arena checked inside
  have landed : (b.walkTo goal arrival).2.position.Same goal := stepTo_of_lands inside lands
  obtain ⟨last, answers⟩ := later.onGoal finite inside ⟨rfl, landed, rfl⟩
  refine ⟨landed, last.position, last.heading, List.forall_mem_cons.mpr ⟨?_, answers⟩⟩
  exact status_of_lands finite inside lands arrival

/-- A body that walks for twenty seconds, farther than the thousand pixels to its goal. -/
def sprinter : Body Float :=
  (Body.spawn .shipped ⟨43.0, 274.0⟩ (.ofSeed 0)).perceive .initial 20.0

/-- A radius that is above zero need not have a square above zero. -/
theorem sprinter_lands :
    let goal : Point Float := ⟨1118.0, 274.0⟩
    let landed := (sprinter.walkTo goal 0.5).2
    let again := (landed.perceive .initial 0.0).walkTo goal 1.0e-200
    landed.position.Same goal ∧ again.2.position.Same goal ∧ again.2.heading = landed.heading ∧
      (sprinter.walkTo goal 0.5).1 = .success ∧ again.1 = .running := by
  intro goal landed again
  have later : WalksOn goal landed [(1.0e-200, again.1)] again.2 :=
    .walk ⟨rfl, rfl, rfl⟩ (by decide +kernel) .stop
  obtain ⟨first, last, heading, answers⟩ :=
    landing_is_absorbing (b := sprinter) Config.check_shipped
      (by decide +kernel) (by decide +kernel) 0.5 later
  obtain ⟨answer, answers⟩ := List.forall_mem_cons.mp answers
  refine ⟨first, last, heading, answer.trans (if_pos (by decide +kernel)), ?_⟩
  exact (answers _ (List.mem_singleton_self _)).trans (if_neg (by decide +kernel))

end ArenaAgent.Body
