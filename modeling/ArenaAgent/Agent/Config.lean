import ArenaAgent.Arena.Rect

/-!
The parameters of an agent, their shipped values, and the regions of the arena that follow from
them.
-/
namespace ArenaAgent

/-- The parameters of one agent. Lengths are pixels, radii metres. -/
structure Config (α : Type) where
  arenaWidth : α
  arenaHeight : α
  /-- Walking speed in kilometres per hour, the same for every kind of walk. -/
  runSpeed : α
  /-- A rival closer than this is confronted or evaded. -/
  senseRadius : α
  /-- A flight goes on until the rival is at least this far away. -/
  fleeRadius : α
  /-- A walk has arrived once its goal is closer than this. -/
  arrivalRadius : α
  /-- A fleeing agent keeps this distance from the edges of the arena. -/
  fleeMargin : α
  /-- Random targets keep this distance from the edges of the arena. -/
  wanderMargin : α
  /-- Half the side of the box around the agent. -/
  halfExtent : α
  /-- The stops of the patrol, visited in a circle. -/
  stops : List (Point α)

/-- The numeric parameters, in the order in which they are declared. -/
inductive Parameter where
  | arenaWidth
  | arenaHeight
  | runSpeed
  | senseRadius
  | fleeRadius
  | arrivalRadius
  | fleeMargin
  | wanderMargin
  | halfExtent
  deriving DecidableEq

namespace Parameter

def all : List Parameter :=
  [.arenaWidth, .arenaHeight, .runSpeed, .senseRadius, .fleeRadius, .arrivalRadius, .fleeMargin,
    .wanderMargin, .halfExtent]

theorem mem_all (p : Parameter) : p ∈ all := by
  cases p <;> decide

/-- The name of a parameter in configuration texts and in messages. -/
def name : Parameter → String
  | .arenaWidth => "arena_width"
  | .arenaHeight => "arena_height"
  | .runSpeed => "run_speed_kmph"
  | .senseRadius => "sense_radius_m"
  | .fleeRadius => "flee_radius_m"
  | .arrivalRadius => "arrival_radius_m"
  | .fleeMargin => "flee_margin"
  | .wanderMargin => "wander_margin"
  | .halfExtent => "bounding_half_extent"

end Parameter

namespace Config

variable {α : Type}

def value (c : Config α) : Parameter → α
  | .arenaWidth => c.arenaWidth
  | .arenaHeight => c.arenaHeight
  | .runSpeed => c.runSpeed
  | .senseRadius => c.senseRadius
  | .fleeRadius => c.fleeRadius
  | .arrivalRadius => c.arrivalRadius
  | .fleeMargin => c.fleeMargin
  | .wanderMargin => c.wanderMargin
  | .halfExtent => c.halfExtent

/-- The configuration with these numeric values. -/
def ofValues (value : Parameter → α) (stops : List (Point α)) : Config α where
  arenaWidth := value .arenaWidth
  arenaHeight := value .arenaHeight
  runSpeed := value .runSpeed
  senseRadius := value .senseRadius
  fleeRadius := value .fleeRadius
  arrivalRadius := value .arrivalRadius
  fleeMargin := value .fleeMargin
  wanderMargin := value .wanderMargin
  halfExtent := value .halfExtent
  stops := stops

@[simp]
theorem value_ofValues (value : Parameter → α) (stops : List (Point α)) :
    (ofValues value stops).value = value := by
  funext p
  cases p <;> rfl

variable [Scalar α]

/-- The shipped patrol: out to the lower left corner and back the same way. -/
def shippedStops : List (Point α) :=
  [⟨43.0, 274.0⟩, ⟨1118.0, 274.0⟩, ⟨1050.0, 494.0⟩, ⟨575.0, 804.0⟩, ⟨235.0, 991.0⟩, ⟨575.0, 804.0⟩,
    ⟨1050.0, 494.0⟩, ⟨1118.0, 274.0⟩]

def shipped : Config α where
  arenaWidth := 1280.0
  arenaHeight := 1024.0
  runSpeed := 10.0
  senseRadius := 7.0
  fleeRadius := 10.0
  arrivalRadius := 0.5
  fleeMargin := 50.0
  wanderMargin := 100.0
  halfExtent := 50.0
  stops := shippedStops

/-- Walking speed in pixels per second. -/
def speed (c : Config α) : α :=
  c.runSpeed * 1000.0 / 3600.0 * pixelsPerMeter

def arena (c : Config α) : Rect α :=
  .ofSize c.arenaWidth c.arenaHeight

/-- Where a fleeing agent is kept. -/
def fleeRegion (c : Config α) : Rect α :=
  c.arena.inset c.fleeMargin

/-- Where random targets and random spawn points lie. -/
def wanderRegion (c : Config α) : Rect α :=
  c.arena.inset c.wanderMargin

/-- Equal parameters, as numbers compare. -/
def Same (c d : Config α) : Prop :=
  (∀ p ∈ Parameter.all, Scalar.Same (c.value p) (d.value p)) ∧
    c.stops.length = d.stops.length ∧ ∀ pair ∈ c.stops.zip d.stops, pair.1.Same pair.2

instance (c d : Config α) : Decidable (c.Same d) :=
  inferInstanceAs (Decidable (_ ∧ _ ∧ _))

end Config

end ArenaAgent
