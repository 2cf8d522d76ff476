import ArenaAgent.Arena.Rect
import ArenaAgent.Random

/-!
Random numbers between two ends, and random points of a rectangle. Not every pair of ends will do:
they have to be in order, and not too far apart. Whether a rectangle can be sampled is a matter of
its corners alone (`Rect.sample_eq_error_iff`), whatever the state of the generator.
-/
namespace ArenaAgent

/-- What ends a run: a random number was to be drawn between two ends, and there is none. -/
inductive Fault where
  /-- The lower end is not below or at the upper one. -/
  | emptyRange
  /-- The ends are too far apart. -/
  | rangeOverflow
  deriving DecidableEq

def Fault.message : Fault → String
  | .emptyRange => "cannot sample empty range"
  | .rangeOverflow => "Uniform::new_inclusive: range overflow"

variable {α : Type} [Scalar α]

/-- A number from `low` to `high`, which the next word of the generator picks. -/
def Rng.between (rng : Rng) (low high : α) : Except Fault (α × Rng) :=
  if low ≤ high then
    match Scalar.span? low high with
    | some span => .ok (Scalar.pick low span rng.next.1, rng.next.2)
    | none => .error .rangeOverflow
  else .error .emptyRange

/-- Why nothing can be drawn between two ends. The generator has no part in it. -/
def Fault.between? (low high : α) : Option Fault :=
  if low ≤ high then
    if (Scalar.span? low high).isSome then none else some .rangeOverflow
  else some .emptyRange

theorem Rng.between_eq_error_iff {rng : Rng} {low high : α} {fault : Fault} :
    rng.between low high = .error fault ↔ Fault.between? low high = some fault := by
  simp only [between, Fault.between?]
  grind

theorem Fault.between?_eq_none_of_ok {rng rng' : Rng} {low high x : α}
    (h : rng.between low high = .ok (x, rng')) : Fault.between? low high = none := by
  simp only [Rng.between] at h
  simp only [Fault.between?]
  grind

/-- A point of the rectangle. Its first coordinate is drawn before its second. -/
def Rect.sample (r : Rect α) (rng : Rng) : Except Fault (Point α × Rng) :=
  match rng.between r.min.x r.max.x with
  | .error fault => .error fault
  | .ok (x, rng) =>
    match rng.between r.min.y r.max.y with
    | .error fault => .error fault
    | .ok (y, rng) => .ok (⟨x, y⟩, rng)

/-- Why no point can be drawn from the rectangle. The first coordinate comes first. -/
def Rect.fault? (r : Rect α) : Option Fault :=
  (Fault.between? r.min.x r.max.x).or (Fault.between? r.min.y r.max.y)

theorem Rect.sample_eq_error_iff {r : Rect α} {rng : Rng} {fault : Fault} :
    r.sample rng = .error fault ↔ r.fault? = some fault := by
  cases hx : rng.between r.min.x r.max.x with
  | error e => simp [sample, Rect.fault?, hx, Rng.between_eq_error_iff.1 hx]
  | ok p =>
    cases hy : p.2.between r.min.y r.max.y with
    | error e =>
      simp [sample, Rect.fault?, hx, hy, Fault.between?_eq_none_of_ok hx,
        Rng.between_eq_error_iff.1 hy]
    | ok q =>
      simp [sample, Rect.fault?, hx, hy, Fault.between?_eq_none_of_ok hx,
        Fault.between?_eq_none_of_ok hy]

end ArenaAgent
