import ArenaAgent.Arena.Rival

/-!
A rival that walks back and forth between two points.
-/
namespace ArenaAgent

/-- A rival on its way between two points. -/
structure Shuttle (α : Type) where
  rival : Rival α
  start : Point α
  finish : Point α
  /-- Whether it walks towards `finish`. -/
  outbound : Bool
  /-- In pixels per second. -/
  speed : α

namespace Shuttle

variable {α : Type}

/-- A rival that stands at `start` and is about to walk to `finish`. -/
def new (start finish : Point α) (speed : α) : Shuttle α :=
  ⟨⟨start, 0⟩, start, finish, true, speed⟩

def goal (s : Shuttle α) : Point α :=
  if s.outbound then s.finish else s.start

/-- Scores points, without regard to the walk. -/
def award (s : Shuttle α) (points : UInt32) : Shuttle α :=
  { s with rival.score := addPoints s.rival.score points }

variable [Scalar α]

/-- Whether the walk of one frame is long enough to reach the goal. -/
def Reaches (s : Shuttle α) (elapsed : α) : Prop :=
  s.rival.position.dist s.goal ≤ s.speed * elapsed

instance (s : Shuttle α) (elapsed : α) : Decidable (s.Reaches elapsed) :=
  inferInstanceAs (Decidable (_ ≤ _))

/-- Walks for one frame: onto the goal, where it turns around, or part of the way. -/
def walk (s : Shuttle α) (elapsed : α) : Shuttle α :=
  if s.Reaches elapsed then { s with rival.position := s.goal, outbound := !s.outbound }
  else
    let angle := s.rival.position.bearing s.goal
    { s with rival.position := s.rival.position.polar angle (s.speed * elapsed) }

end Shuttle

end ArenaAgent
