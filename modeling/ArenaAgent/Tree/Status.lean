/-!
How a behaviour answers when it is ticked: it resolved, one way or the other, or it needs more
ticks.
-/
namespace ArenaAgent

inductive Status where
  | success
  | failure
  | running
  deriving DecidableEq

namespace Status

/-- A check that holds succeeds and one that does not hold fails. -/
def ofBool : Bool → Status
  | true => .success
  | false => .failure

/-- The behaviour resolved, either way. -/
def isResolved (s : Status) : Bool :=
  s ≠ .running

/-- The other way to resolve; a suspended behaviour stays suspended. -/
def swap : Status → Status
  | .success => .failure
  | .failure => .success
  | .running => .running

end Status

end ArenaAgent
