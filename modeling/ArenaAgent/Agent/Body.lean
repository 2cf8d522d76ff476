import ArenaAgent.Agent.Config
import ArenaAgent.Agent.Patrol
import ArenaAgent.Arena.Rival
import ArenaAgent.Log.Event
import ArenaAgent.Random

/-!
The body of an agent: where it stands and what it heads for, what it saw of its rival, its score,
its random generator, and a journal of what happened. Decisions read and write nothing else.
-/
namespace ArenaAgent

structure Body (α : Type) where
  config : Config α
  /-- Walking speed in pixels per second. -/
  speed : α
  position : Point α
  heading : α
  visual : Visual
  target : Point α
  patrol : Patrol α
  score : UInt32
  /-- The rival as it was at the start of the tick. -/
  rival : Rival α
  /-- The seconds that the tick takes. -/
  elapsed : α
  /-- Whether the agent walked in this tick. -/
  moved : Bool
  rng : Rng
  /-- What happened since the journal was last emptied. -/
  journal : Array (Event α)

namespace Body

variable {α : Type}

def record (b : Body α) (e : Event α) : Body α :=
  { b with journal := b.journal.push e }

def clearJournal (b : Body α) : Body α :=
  { b with journal := #[] }

/-- Takes in what a tick starts from. -/
def perceive (b : Body α) (rival : Rival α) (elapsed : α) : Body α :=
  { b with rival, elapsed, moved := false }

/-- Ends a tick. An agent that did not walk in it stands idle. -/
def rest (b : Body α) : Body α :=
  if b.moved then b else { b with visual := .idle }

theorem rest_body (b : Body α) : ∃ visual, b.rest = { b with visual } := by
  rw [rest]
  split
  · exact ⟨b.visual, rfl⟩
  · exact ⟨.idle, rfl⟩

def award (b : Body α) (points : UInt32) : Body α :=
  { b with score := addPoints b.score points }

/-- An agent that stands idle at a point. Until its first leg the point is its target. -/
def spawn [Scalar α] (config : Config α) (position : Point α) (rng : Rng) : Body α where
  config := config
  speed := config.speed
  position := position
  heading := 0.0
  visual := .initial
  target := position
  patrol := .ofStops config.stops
  score := 0
  rival := .initial
  elapsed := 0.0
  moved := false
  rng := rng
  journal := #[]

end Body

end ArenaAgent
