import ArenaAgent.Scalar

/-!
Points of the arena, in pixels, and the two questions that decisions rest on: whether two points are
within a radius in metres, and at which angle one is seen from the other.
-/
namespace ArenaAgent

/-- Ten pixels are thirty centimetres. -/
def pixelsPerMeter {α : Type} [Scalar α] : α :=
  10.0 / 0.3

structure Point (α : Type) where
  x : α
  y : α
  deriving DecidableEq

namespace Point

variable {α : Type} [Scalar α]

def origin : Point α :=
  ⟨0.0, 0.0⟩

/-- The distance of two points as a square. -/
def sqDist (p q : Point α) : α :=
  let dx := p.x - q.x
  let dy := p.y - q.y
  dx * dx + dy * dy

def dist (p q : Point α) : α :=
  Scalar.sqrt (p.sqDist q)

/-- The point so far away at an angle; the angle zero points along the first axis. -/
def polar (p : Point α) (angle distance : α) : Point α :=
  ⟨p.x + distance * Scalar.cos angle, p.y + distance * Scalar.sin angle⟩

/-- The angle at which `goal` is seen. -/
def bearing (p goal : Point α) : α :=
  Scalar.atan2 (goal.y - p.y) (goal.x - p.x)

/-- Strictly closer than so many metres. Distances are compared as squares. -/
def Within (p q : Point α) (radius : α) : Prop :=
  p.sqDist q < radius * pixelsPerMeter * (radius * pixelsPerMeter)

instance (p q : Point α) (radius : α) : Decidable (p.Within q radius) :=
  inferInstanceAs (Decidable (_ < _))

/-- Equal coordinates, as numbers compare. -/
def Same (p q : Point α) : Prop :=
  Scalar.Same p.x q.x ∧ Scalar.Same p.y q.y

instance (p q : Point α) : Decidable (p.Same q) :=
  inferInstanceAs (Decidable (_ ∧ _))

/-- The point with the given coordinates. A coordinate that is missing, zero or not finite cannot be
used. -/
def ofCoordinates? (x y : Option α) : Option (Point α) :=
  let usable (v : α) : Bool := Scalar.isFinite v ∧ (v < 0.0 ∨ 0.0 < v)
  match x.filter usable, y.filter usable with
  | some x, some y => some ⟨x, y⟩
  | _, _ => none

end Point

end ArenaAgent
