/-!
The numbers of the arena. All geometry, movement and timing is written for any type with these
operations, so it runs on doubles and can be read over the reals.
-/
namespace ArenaAgent

/-- A type of coordinates, distances, angles and times. Comparison need not be total: a number that
is not even below itself is no number. -/
class Scalar (α : Type) extends Add α, Sub α, Mul α, Div α, LT α, LE α, OfScientific α where
  below : α → α → Bool
  atMost : α → α → Bool
  below_iff : ∀ {a b : α}, below a b = true ↔ a < b
  atMost_iff : ∀ {a b : α}, atMost a b = true ↔ a ≤ b
  sqrt : α → α
  sin : α → α
  cos : α → α
  /-- The angle of the vector with the second argument as its first coordinate. -/
  atan2 : α → α → α
  pi : α
  isFinite : α → Bool
  /-- What is left of the first number after taking away a whole multiple of the second; it has the
  sign of the first. -/
  remainder : α → α → α
  /-- The whole part of a number that is at least one, and zero for all others. -/
  toNat : α → Nat
  /-- The span of the numbers to be picked from between two ends; none if it is no finite number. -/
  span? : α → α → Option α
  /-- The number that a random word picks, from the lower end and the span. -/
  pick : α → α → UInt64 → α

namespace Scalar

variable {α : Type} [Scalar α]

instance (a b : α) : Decidable (a < b) :=
  decidable_of_iff _ below_iff

instance (a b : α) : Decidable (a ≤ b) :=
  decidable_of_iff _ atMost_iff

/-- The greater of two; what is no number is passed over. Of two that are equal it is the second,
and `min` is the first, so that both together are the two. -/
def max (a b : α) : α :=
  if a ≤ a then (if a ≤ b then b else a) else b

/-- The smaller of two, and the first of two that are equal; what is no number is passed over. -/
def min (a b : α) : α :=
  if a ≤ a then (if b < a then b else a) else b

/-- Numbers that compare as equal. -/
def Same (a b : α) : Prop :=
  a ≤ b ∧ b ≤ a

instance (a b : α) : Decidable (Same a b) :=
  inferInstanceAs (Decidable (_ ∧ _))

end Scalar

end ArenaAgent
