import ArenaAgent.Tree.Tick

/-!
Leaves for trees that are put together by hand: a function on the context, a test of the context,
and a list of answers to give. The first two carry nothing from one tick to the next.
-/
namespace ArenaAgent

/-- Gives the answers of a list, one a tick, and then its last one for ever. -/
structure Replay where
  first : Status
  later : List Status
  /-- How many ticks were answered since the start of the list. -/
  position : Nat
  /-- Whether a reset goes back to the start of the list. -/
  rewinds : Bool

namespace Replay

def answer (r : Replay) : Status :=
  ((r.first :: r.later)[r.position]?).getD (r.later.getLastD r.first)

def advance (r : Replay) : Replay :=
  { r with position := r.position + 1 }

def reset (r : Replay) : Replay :=
  if r.rewinds then { r with position := 0 } else r

end Replay

inductive Leaf (C : Type) where
  /-- Runs a function on the context and gives its answer. -/
  | action (run : C → Status × C)
  /-- Tests the context and leaves it alone. -/
  | condition (check : C → Bool)
  /-- Leaves the context alone and gives the next answer of a list. -/
  | replay (answers : Replay)

namespace Leaf

variable {C : Type}

def tick : Leaf C → C → Status × Leaf C × C
  | .action run, c => ((run c).1, .action run, (run c).2)
  | .condition check, c => (.ofBool (check c), .condition check, c)
  | .replay r, c => (r.answer, .replay r.advance, c)

def reset : Leaf C → Leaf C
  | .replay r => .replay r.reset
  | l => l

instance : Behavior (Leaf C) C where
  tick := tick
  reset := reset

end Leaf

end ArenaAgent
