import ArenaAgent.Agent.Body
import ArenaAgent.Host.Settings

/-!
What the log of a run tells: its settings, what happens to the agent, summaries, and the end.
-/
namespace ArenaAgent

inductive Report (α : Type) where
  | started (settings : Settings α)
  | agent (event : Event α)
  /-- A summary of the agent after a frame, and where the rival is. -/
  | summary (tick : Nat) (body : Body α) (rival : Point α)
  | finished (ticks : Nat) (body : Body α)

namespace Report

variable {α : Type}

def settingsValue (s : Settings α) : LogValue α :=
  .parts "HeadlessConfig"
    [("ticks", .natural s.ticks), ("frame_time", .number s.frameTime),
      ("seed", .maybe (s.seed.map fun n => .natural n.toNat)),
      ("agent_config", .maybe (s.agentConfig.map .text)), ("rival_speed", .number s.rivalSpeed),
      ("score_every", .natural s.scoreEvery), ("draw", .flag s.draw),
      ("log_every", .natural s.logEvery)]

def record : Report α → Record α
  | .started settings => ⟨.info, "starting headless run", [("config", settingsValue settings)]⟩
  | .agent event => event.record
  | .summary tick b rival =>
    ⟨.info, "agent",
      [("tick", .natural tick), ("x", .number b.position.x), ("y", .number b.position.y),
        ("visual", .text b.visual.name), ("patrol", .natural b.patrol.index),
        ("score", .natural b.score.toNat), ("rival", .point rival)]⟩
  | .finished ticks b =>
    ⟨.info, "run finished",
      [("ticks", .natural ticks), ("score", .natural b.score.toNat),
        ("position", .point b.position)]⟩

end Report

end ArenaAgent
