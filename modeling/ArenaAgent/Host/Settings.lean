import ArenaAgent.Binary64
import ArenaAgent.Text.Numeral
import ArenaAgent.Text.Utf8

/-!
The settings of a headless run, and how they are read from an environment. What cannot be read
keeps its default.
-/
namespace ArenaAgent

structure Settings (α : Type) where
  /-- The number of frames. -/
  ticks : Nat
  /-- The seconds of one frame. -/
  frameTime : α
  /-- The agent's seed; without one it starts with the generator of its host. -/
  seed : Option UInt64
  /-- A file that holds the agent's configuration. -/
  agentConfig : Option String
  /-- In pixels per second. -/
  rivalSpeed : α
  /-- A collision scores every so many frames; never if zero. -/
  scoreEvery : Nat
  /-- Whether drawings are logged. -/
  draw : Bool
  /-- A summary is logged every so many frames. -/
  logEvery : Nat

/-- The variables of an environment, as bytes. -/
abbrev Environment := List (String × List UInt8)

namespace Environment

/-- The text of a variable, if it is text. -/
def text? (env : Environment) (name : String) : Option String :=
  (env.lookup name).bind Utf8.text?

def word? (env : Environment) (name : String) : Option UInt64 :=
  (env.text? name).bind Numeral.word?

def double? (env : Environment) (name : String) : Option Float :=
  (env.text? name).bind Numeral.double?

def switch? (env : Environment) (name : String) : Option Bool :=
  (env.text? name).bind Numeral.switch?

end Environment

namespace Settings

variable {α : Type} [Scalar α]

/-- Thirty seconds at sixty frames a second. -/
def default : Settings α where
  ticks := 1800
  frameTime := 1.0 / 60.0
  seed := none
  agentConfig := none
  rivalSpeed := 60.0
  scoreEvery := 600
  draw := false
  logEvery := 60

/-- A frame takes a finite, positive time. -/
def usableFrameTime (time : α) : Bool :=
  Scalar.isFinite time ∧ 0.0 < time

/-- The names of the variables that are read. -/
def variableNames : List String :=
  ["NPC_TICKS", "NPC_FRAME_TIME", "NPC_SEED", "NPC_AGENT_CONFIG", "NPC_RIVAL_SPEED",
    "NPC_SCORE_EVERY", "NPC_DRAW", "NPC_LOG_EVERY"]

/-- The settings that an environment gives. The speed of the rival is at least zero and summaries
are at least one frame apart. -/
def ofEnvironment (env : Environment) : Settings Float :=
  let unset : Settings Float := default
  { ticks := ((env.word? "NPC_TICKS").map UInt64.toNat).getD unset.ticks
    frameTime := ((env.double? "NPC_FRAME_TIME").filter usableFrameTime).getD unset.frameTime
    seed := env.word? "NPC_SEED"
    agentConfig := (env.lookup "NPC_AGENT_CONFIG").map Utf8.lossyText
    rivalSpeed :=
      ((env.double? "NPC_RIVAL_SPEED").map fun v => Scalar.max v 0.0).getD unset.rivalSpeed
    scoreEvery := ((env.word? "NPC_SCORE_EVERY").map UInt64.toNat).getD unset.scoreEvery
    draw := (env.switch? "NPC_DRAW").getD unset.draw
    logEvery := ((env.word? "NPC_LOG_EVERY").map fun n => Nat.max n.toNat 1).getD unset.logEvery }

/-- Equal settings, as numbers compare. -/
def Same (s t : Settings α) : Prop :=
  Scalar.Same s.frameTime t.frameTime ∧ Scalar.Same s.rivalSpeed t.rivalSpeed ∧
    (s.ticks, s.seed, s.agentConfig, s.scoreEvery, s.draw, s.logEvery) =
      (t.ticks, t.seed, t.agentConfig, t.scoreEvery, t.draw, t.logEvery)

instance (s t : Settings α) : Decidable (s.Same t) :=
  inferInstanceAs (Decidable (_ ∧ _ ∧ _))

end Settings

end ArenaAgent
