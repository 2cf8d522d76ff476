import ArenaAgent.Agent.Body
import ArenaAgent.Tree.Status

/-!
The walks of an agent: to a point, or away from one. Each takes the time of one tick and answers
`running` until its end is reached.
-/
namespace ArenaAgent.Body

variable {α : Type} [Scalar α]

def stride (b : Body α) : α :=
  b.speed * b.elapsed

/-- The heading of a walk to `goal`; an agent that stands on the goal keeps its own. -/
def headingTo (b : Body α) (goal : Point α) : α :=
  if 0.0 < b.position.dist goal then b.position.bearing goal else b.heading

/-- Where a walk to `goal` ends: on the goal if the stride is long enough, else part of the way, and
in any case in the arena. -/
def stepTo (b : Body α) (goal : Point α) : Point α :=
  b.config.arena.clamp
    (if b.position.dist goal ≤ b.stride then goal else b.position.polar (b.headingTo goal) b.stride)

/-- Walks towards `goal`. The walk is over once the goal is within `arrival` metres. -/
def walkTo (b : Body α) (goal : Point α) (arrival : α) : Status × Body α :=
  let position := b.stepTo goal
  (if goal.Within position arrival then .success else .running,
    { b with position, heading := b.headingTo goal, visual := .walk, moved := true })

def walkToTarget (b : Body α) (arrival : α) : Status × Body α :=
  b.walkTo b.target arrival

def headingFrom (b : Body α) (threat : Point α) : α :=
  b.position.bearing threat + Scalar.pi

/-- Where a flight from `threat` ends, in any case in the flee region. -/
def stepFrom (b : Body α) (threat : Point α) : Point α :=
  b.config.fleeRegion.clamp (b.position.polar (b.headingFrom threat) b.stride)

/-- Walks straight away from `threat`. The flight is over once the threat is no longer within the
flee radius; an agent in a corner may have to wait for the threat to leave. -/
def fleeFrom (b : Body α) (threat : Point α) : Status × Body α :=
  let position := b.stepFrom threat
  (if position.Within threat b.config.fleeRadius then .running else .success,
    { b with position, heading := b.headingFrom threat, visual := .walk, moved := true })

end ArenaAgent.Body
