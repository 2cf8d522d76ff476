import ArenaAgent.Arena.Point

/-!
Rectangles along the axes of the arena: the arena itself, the regions inside it that an agent keeps
to, and the boxes around agents. The edges belong to a rectangle.
-/
namespace ArenaAgent

structure Rect (α : Type) where
  min : Point α
  max : Point α

namespace Rect

variable {α : Type} [Scalar α]

/-- The rectangle of this size with a corner at the origin. -/
def ofSize (width height : α) : Rect α :=
  ⟨.origin, ⟨width, height⟩⟩

/-- The square of half side `half` around a point. -/
def around (center : Point α) (half : α) : Rect α :=
  ⟨⟨center.x - half, center.y - half⟩, ⟨center.x + half, center.y + half⟩⟩

/-- Takes a margin off every side. -/
def inset (r : Rect α) (margin : α) : Rect α :=
  ⟨⟨r.min.x + margin, r.min.y + margin⟩, ⟨r.max.x - margin, r.max.y - margin⟩⟩

instance : Membership (Point α) (Rect α) where
  mem r p := (r.min.x ≤ p.x ∧ p.x ≤ r.max.x) ∧ (r.min.y ≤ p.y ∧ p.y ≤ r.max.y)

theorem mem_iff {p : Point α} {r : Rect α} :
    p ∈ r ↔ (r.min.x ≤ p.x ∧ p.x ≤ r.max.x) ∧ (r.min.y ≤ p.y ∧ p.y ≤ r.max.y) :=
  Iff.rfl

instance (p : Point α) (r : Rect α) : Decidable (p ∈ r) :=
  decidable_of_iff _ mem_iff.symm

/-- The corners are in order: there is room on both axes. -/
def Ordered (r : Rect α) : Prop :=
  r.min.x ≤ r.max.x ∧ r.min.y ≤ r.max.y

instance (r : Rect α) : Decidable r.Ordered :=
  inferInstanceAs (Decidable (_ ∧ _))

/-- Moves a point into the rectangle, each coordinate on its own. -/
def clamp (r : Rect α) (p : Point α) : Point α :=
  ⟨Scalar.min (Scalar.max p.x r.min.x) r.max.x, Scalar.min (Scalar.max p.y r.min.y) r.max.y⟩

end Rect

end ArenaAgent
