import ArenaAgent.Agent.Body
import ArenaAgent.Agent.Refusal
import ArenaAgent.Arena.Sample
import ArenaAgent.Tree.Status

/-!
The ways in which an agent chooses its target: at random, from its patrol, or as it is told.
-/
namespace ArenaAgent.Body

variable {α : Type}

/-- Takes a random point of the wander region as the target. -/
def aimAtRandom [Scalar α] (b : Body α) : Except Fault (Status × Body α) :=
  (b.config.wanderRegion.sample b.rng).map fun (target, rng) =>
    (.success, { b with target, rng }.record (.randomTarget target))

theorem aimAtRandom_ok [Scalar α] {b aimed : Body α} {status : Status}
    (h : b.aimAtRandom = .ok (status, aimed)) :
    ∃ target rng, b.config.wanderRegion.sample b.rng = .ok (target, rng) ∧ status = .success ∧
      aimed = { b with target, rng }.record (.randomTarget target) := by
  rw [aimAtRandom] at h
  cases drawn : b.config.wanderRegion.sample b.rng with
  | ok point =>
    rw [drawn] at h
    cases h
    exact ⟨_, _, rfl, rfl, rfl⟩
  | error fault =>
    rw [drawn] at h
    cases h

/-- Takes the next stop of the patrol as the target; fails if there is none. -/
def aimAtNextStop (b : Body α) : Status × Body α :=
  match b.patrol.next? with
  | some (stop, patrol) =>
    (.success, { b with target := stop, patrol }.record (.patrolLeg b.patrol.index stop))
  | none => (.failure, b)

def aimAt (b : Body α) (target : Point α) : Status × Body α :=
  (.success, { b with target })

end ArenaAgent.Body

namespace ArenaAgent

/-- The target with the given coordinates, both of which have to be usable. -/
def explicitTarget {α : Type} [Scalar α] (x y : Option α) : Except (Refusal α) (Point α) :=
  match Point.ofCoordinates? x y with
  | some target => .ok target
  | none => .error (.misuse .incompleteTarget)

end ArenaAgent
