import ArenaAgent.Agent.Basic
import ArenaAgent.Arena.Shuttle
import ArenaAgent.Host.ConfigFile
import ArenaAgent.Host.Report

/-!
A headless run: one agent against a rival that walks back and forth across the middle of the arena,
frame after frame. Every so many frames a collision scores, for the agent and for the rival in turn.
A run is a value; its log is part of it.
-/
namespace ArenaAgent

/-- A run between two frames. -/
structure Run (α : Type) where
  agent : Agent α
  rival : Shuttle α
  log : Array (Report α)

/-- A run that did not come to its end. -/
structure BrokenRun (α : Type) where
  fault : Fault
  log : Array (Report α)

/-- What went before a breakdown still gets into the log. -/
def BrokenRun.ofBreakdown {α : Type} (log : Array (Report α)) (e : Breakdown α) : BrokenRun α :=
  ⟨e.fault, log ++ e.body.journal.map .agent⟩

/-- Whose turn it is to score. -/
inductive Turn where
  | nobody
  | agent
  | rival
  deriving DecidableEq

/-- Whose turn it is after the frame with this number, counted from one. -/
def Turn.after (scoreEvery tick : Nat) : Turn :=
  if 0 < scoreEvery ∧ tick % scoreEvery = 0 then
    if tick / scoreEvery % 2 = 1 then .agent else .rival
  else .nobody

namespace Run

variable {α : Type}

/-- Moves the agent's journal into the log. -/
def flush (r : Run α) : Run α :=
  { r with
    agent := r.agent.clearJournal
    log := r.log ++ r.agent.body.journal.map .agent }

def score (r : Run α) : Turn → Run α
  | .nobody => r
  | .agent => { r with agent := r.agent.collide scoringGroup }
  | .rival => { r with rival := r.rival.award 1 }

variable [Scalar α]

/-- The rival's way: at half the height of the arena, between a fifth and four
fifths of its width. -/
def shuttle (c : Config α) (speed : α) : Shuttle α :=
  let middle := c.arenaHeight / 2.0
  .new ⟨c.arenaWidth * 0.2, middle⟩ ⟨c.arenaWidth * 0.8, middle⟩ speed

/-- A run before its first frame. -/
def start (s : Settings α) (c : Config α) (entropy : Rng) : Except (BuildError α) (Run α) := do
  let agent ← AgentSpec.build ⟨c, none, s.seed⟩ entropy
  return flush ⟨agent, shuttle c s.rivalSpeed, #[.started s]⟩

/-- One frame: the rival walks, the agent answers to what it sees, points are scored, and the agent
is drawn and summed up when it is time for that. -/
def frame (s : Settings α) (tick : Nat) (r : Run α) : Except (BrokenRun α) (Run α) := do
  let rival := r.rival.walk s.frameTime
  let agent ← (r.agent.update rival.rival s.frameTime).mapError (.ofBreakdown r.log)
  let r := score { r with agent, rival } (.after s.scoreEvery tick)
  let r := if s.draw then { r with agent := r.agent.recordDrawings } else r
  let r := flush r
  if tick % s.logEvery = 0 then
    return { r with log := r.log.push (.summary tick r.agent.body r.rival.rival.position) }
  else
    return r

/-- So many frames, the first of which has the number `tick`. -/
def frames (s : Settings α) (tick : Nat) : Nat → Run α → Except (BrokenRun α) (Run α)
  | 0, r => .ok r
  | n + 1, r =>
    match frame s tick r with
    | .ok r => frames s (tick + 1) n r
    | .error e => .error e

/-- Why a run did not come to its end. -/
inductive Failure where
  | load (error : LoadError)
  | build (error : BuildError Float)
  | fault (fault : Fault)

namespace Failure

/-- The last line of a run that failed. -/
def notice (number : Float → String) : Failure → String
  | .load e => "Error: " ++ e.message number
  | .build (.refused e) => "Error: " ++ e.message number
  | .build (.fault f) => f.message
  | .fault f => f.message

/-- The exit code of a run that failed: a refusal is the host's to mend, a fault is not. -/
def exitCode : Failure → UInt32
  | .load _ => 1
  | .build (.refused _) => 1
  | .build (.fault _) => 101
  | .fault _ => 101

end Failure

end Run

/-- A whole run with these settings and the contents of the configuration file, if it could be read:
its log, and why it failed if it did. -/
def Settings.run (s : Settings Float) (contents : Option (List UInt8)) (entropy : Rng) :
    Array (Report Float) × Option Run.Failure :=
  match Config.load s.agentConfig contents with
  | .error e => (#[], some (.load e))
  | .ok c =>
    match Run.start s c entropy with
    | .error e => (#[.started s], some (.build e))
    | .ok r =>
      match Run.frames s 1 s.ticks r with
      | .error e => (e.log, some (.fault e.fault))
      | .ok r => (r.log.push (.finished s.ticks r.agent.body), none)

end ArenaAgent
