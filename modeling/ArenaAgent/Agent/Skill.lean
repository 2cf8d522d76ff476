import ArenaAgent.Agent.Body.Target
import ArenaAgent.Agent.Body.Walk
import ArenaAgent.Tree.Tick

/-!
The skills of an agent, which are the leaves of its tree: two questions and seven deeds.

The context of such a tree is a body, or the breakdown that ended its run; after that no skill does
anything any more.
-/
namespace ArenaAgent

inductive Skill (α : Type) where
  /-- Is the rival strictly closer than so many metres? -/
  | rivalNear (radius : α)
  /-- Has the agent strictly more points than the rival? -/
  | ahead
  | chase (arrival : α)
  | walk (arrival : α)
  | flee
  /-- Stand still after a flight, unless the rival is within so many metres. -/
  | settle (radius : α)
  | aimAtRandom
  | aimAtNextStop
  | aimAt (target : Point α)

/-- The end of a run: the fault, and the body that met with it, whose journal tells
what went before. -/
structure Breakdown (α : Type) where
  fault : Fault
  body : Body α

namespace Skill

variable {α : Type} [Scalar α]

def perform (k : Skill α) (b : Body α) : Except Fault (Status × Body α) :=
  match k with
  | .rivalNear radius => .ok (.ofBool (b.rival.position.Within b.position radius), b)
  | .ahead => .ok (.ofBool (b.rival.score < b.score), b)
  | .chase arrival => .ok ({ b with target := b.rival.position }.walkToTarget arrival)
  | .walk arrival => .ok (b.walkToTarget arrival)
  | .flee =>
    let (status, b) := b.fleeFrom b.rival.position
    .ok (status, if status = .success then b.record (.escapedRival b.position) else b)
  | .settle radius =>
    if b.position.Within b.rival.position radius then .ok (.failure, b)
    else .ok (.success, { b with visual := .idle })
  | .aimAtRandom => b.aimAtRandom
  | .aimAtNextStop => .ok b.aimAtNextStop
  | .aimAt target => .ok (b.aimAt target)

def tick (k : Skill α) :
    Except (Breakdown α) (Body α) → Status × Skill α × Except (Breakdown α) (Body α)
  | .ok b =>
    match k.perform b with
    | .ok (status, b) => (status, k, .ok b)
    | .error fault => (.failure, k, .error ⟨fault, b⟩)
  | .error e => (.failure, k, .error e)

/-- Skills carry nothing from tick to tick. -/
instance : Behavior (Skill α) (Except (Breakdown α) (Body α)) where
  tick := tick
  reset k := k

theorem tick_of_perform (k : Skill α) (b b' : Body α) (status : Status)
    (h : k.perform b = .ok (status, b')) : Behavior.tick k (.ok b) = (status, k, .ok b') := by
  show k.tick (.ok b) = _
  simp only [tick, h]

theorem tick_of_fault (k : Skill α) (b : Body α) (fault : Fault) (h : k.perform b = .error fault) :
    Behavior.tick k (.ok b) = (.failure, k, .error ⟨fault, b⟩) := by
  show k.tick (.ok b) = _
  simp only [tick, h]

end Skill

end ArenaAgent
