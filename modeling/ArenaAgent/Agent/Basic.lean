import ArenaAgent.Agent.Mind

/-!
An agent as its host sees it: built from a specification, updated once a frame with what it can see
of its rival, told about collisions, and drawn.
-/
namespace ArenaAgent

/-- Frames in every animation strip. -/
def framesPerStrip {α : Type} [Scalar α] : α := 10.0

/-- Seconds in which a strip is played once. -/
def secondsPerStrip {α : Type} [Scalar α] : α := 0.5

def stripsPerSecond {α : Type} [Scalar α] : α := 1.0 / secondsPerStrip

/-- The collision group that earns a point. -/
def scoringGroup : String := "zombie:ball"

structure Agent (α : Type) where
  body : Body α
  mind : Mind α
  /-- The animation frame with its fraction. -/
  frame : α

structure AgentSpec (α : Type) where
  config : Config α
  /-- A random point of the wander region if none is given. -/
  spawn : Option (Point α)
  /-- The agent starts with the generator of its host if none is given. -/
  seed : Option UInt64

/-- Why no agent was built. -/
inductive BuildError (α : Type) where
  | refused (refusal : Refusal α)
  | fault (fault : Fault)

namespace AgentSpec

variable {α : Type}

/-- The generator with which an agent starts. Without a seed it is the one that
the host hands in. -/
def generator (spec : AgentSpec α) (entropy : Rng) : Rng :=
  match spec.seed with
  | some seed => .ofSeed seed
  | none => entropy

variable [Scalar α]

/-- The spawn point and the generator after it was drawn, if it had to be. -/
def spawnPoint (spec : AgentSpec α) (rng : Rng) : Except (BuildError α) (Point α × Rng) :=
  match spec.spawn with
  | some p =>
    if p ∈ spec.config.arena then .ok (p, rng) else .error (.refused (.misuse .spawnOutsideArena))
  | none => (spec.config.wanderRegion.sample rng).mapError .fault

/-- Builds an agent. The configuration is checked first, then the spawn point; from the generator
come first the spawn point, if it is random, and then the first animation frame. -/
def build (spec : AgentSpec α) (entropy : Rng) : Except (BuildError α) (Agent α) := do
  spec.config.check.mapError .refused
  let (position, rng) ← spec.spawnPoint (spec.generator entropy)
  let (frame, rng) := rng.digit
  return {
    body := (Body.spawn spec.config position rng).record (.spawned position spec.seed)
    mind := .ofConfig spec.config
    frame := OfScientific.ofScientific frame false 0 }

end AgentSpec

namespace Agent

variable {α : Type}

/-- A collision in the group that counts earns a point; all others do nothing. -/
def collide (a : Agent α) (group : String) : Agent α :=
  if group = scoringGroup then
    let body := a.body.award 1
    { a with body := body.record (.scored body.score) }
  else a

def clearJournal (a : Agent α) : Agent α :=
  { a with body := a.body.clearJournal }

/-- The answer of the latest tick. -/
def answer (a : Agent α) : Option Status :=
  a.mind.last

variable [Scalar α]

/-- Time that is negative or not finite does not pass. -/
def passing (elapsed : α) : α :=
  if Scalar.isFinite elapsed ∧ 0.0 < elapsed then elapsed else 0.0

/-- The animation goes on in a circle. -/
def frameAfter (frame elapsed : α) : α :=
  Scalar.remainder (frame + framesPerStrip * stripsPerSecond * elapsed) framesPerStrip

/-- The journal of a tick that ended: the tick itself, and a change of the visual since `before`. -/
def recordTick (before : Visual) (tick : Nat) (status : Status) (b : Body α) : Body α :=
  let b := b.record (.ticked tick status b.position)
  if before = b.visual then b else b.record (.visualChanged before b.visual)

/-- Goes through one frame. -/
def update (a : Agent α) (rival : Rival α) (elapsed : α) : Except (Breakdown α) (Agent α) :=
  let elapsed := passing elapsed
  let o := a.mind.tick (.ok (a.body.perceive rival elapsed))
  o.context.map fun body => {
    body := recordTick a.body.visual o.next.ticks o.status body.rest
    mind := o.next
    frame := frameAfter a.frame elapsed }

def shownFrame (a : Agent α) : Nat :=
  Scalar.toNat a.frame

/-- The square around the agent. -/
def box (a : Agent α) : Rect α :=
  .around a.body.position a.body.config.halfExtent

/-- What is drawn for the agent: its sprite, its score below, the box around it. -/
def drawings (a : Agent α) : List (Drawing α) :=
  let position := a.body.position
  [.sprite {
      visual := a.body.visual
      frame := a.shownFrame
      center := position
      size := 100.0
      facing := .ofHeading a.body.heading },
    .label ⟨position.x - 10.0, position.y + 60.0⟩ (toString a.body.score.toNat),
    .outline a.box]

/-- Notes in the journal that the agent was drawn. -/
def recordDrawings (a : Agent α) : Agent α :=
  { a with body := a.drawings.foldl (fun b d => b.record (.drew d)) a.body }

end Agent

end ArenaAgent
