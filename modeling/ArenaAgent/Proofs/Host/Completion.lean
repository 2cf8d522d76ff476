import ArenaAgent.Host.Run
import ArenaAgent.Proofs.Agent.Acts
import ArenaAgent.Proofs.Agent.Demands
import ArenaAgent.Proofs.Agent.Gait

/-!
Whether a headless run comes to its end. A configuration that loads has no defect, and what remains
is whether random points can be drawn from its wander region. If they can, the run goes through all
its frames; if they cannot, there is no agent to start with (`run_outcome`).
-/
namespace ArenaAgent

/-! ## Settings -/

/-- Settings by which a run can be measured: a frame takes time, the rival walks at no negative
speed, and summaries come at a distance. -/
structure Settings.Sound {α : Type} [Scalar α] (s : Settings α) : Prop where
  finite : Scalar.isFinite s.frameTime = true
  positive : 0.0 < s.frameTime
  rivalSpeed : 0.0 ≤ s.rivalSpeed
  logEvery : 0 < s.logEvery

/-- Every environment gives sound settings. -/
theorem Settings.sound_ofEnvironment (env : Environment) : (ofEnvironment env).Sound := by
  have usable : usableFrameTime (ofEnvironment env).frameTime = true := by
    cases read : (env.double? "NPC_FRAME_TIME").filter usableFrameTime with
    | none =>
      simp only [ofEnvironment, read, Option.getD_none]
      decide +kernel
    | some time =>
      simp only [ofEnvironment, read, Option.getD_some]
      exact (Option.filter_eq_some_iff.mp read).2
  simp only [usableFrameTime, decide_eq_true_eq] at usable
  obtain ⟨finite, positive⟩ := usable
  refine ⟨finite, positive, ?_, ?_⟩
  · cases read : env.double? "NPC_RIVAL_SPEED" with
    | none =>
      simp only [ofEnvironment, read, Option.map_none, Option.getD_none]
      decide +kernel
    | some speed =>
      simp only [ofEnvironment, read, Option.map_some, Option.getD_some]
      exact Scalar.le_max_right (by decide +kernel)
  · cases read : env.word? "NPC_LOG_EVERY" with
    | none =>
      simp only [ofEnvironment, read, Option.map_none, Option.getD_none]
      decide
    | some every =>
      simp only [ofEnvironment, read, Option.map_some, Option.getD_some]
      exact Nat.le_max_right _ 1

/-! ## Configurations -/

/-- A configuration that loads has no defect. -/
theorem Config.check_of_load {path : Option String} {contents : Option (List UInt8)}
    {c : Config Float} (h : load path contents = .ok c) : c.check = .ok () := by
  cases path with
  | none =>
    cases h
    exact check_shipped
  | some path =>
    simp only [load, ofFile] at h
    split at h
    · cases h
    · split at h
      · cases h
      · split at h
        · cases h
        · rename_i checked
          cases h
          exact checked

variable {α : Type} [Scalar α] {c : Config α}

/-- Where there is room, random points can be drawn unless the corners are too far apart. -/
theorem Rect.fault?_of_ordered {r : Rect α} (ordered : r.Ordered) {fault : Fault}
    (h : r.fault? = some fault) : fault = .rangeOverflow := by
  simp only [Rect.fault?, Fault.between?, if_pos ordered.1, if_pos ordered.2] at h
  split at h
  · split at h <;> cases h
    rfl
  · cases h
    rfl

/-! ## Frames -/

/-- An agent that is to stand at a random point is built from a configuration without defect, unless
no point can be drawn. -/
theorem AgentSpec.build_of_random (spec : AgentSpec α) (random : spec.spawn = none)
    (checked : spec.config.check = .ok ()) (entropy : Rng) :
    match spec.config.wanderRegion.fault? with
    | none => ∃ a, spec.build entropy = .ok a
    | some fault => spec.build entropy = .error (.fault fault) := by
  simp only [build, checked, spawnPoint, random]
  cases drawn : spec.config.wanderRegion.sample (spec.generator entropy) with
  | error fault =>
    rw [Rect.sample_eq_error_iff.mp drawn]
    rfl
  | ok point =>
    cases region : spec.config.wanderRegion.fault? with
    | none => exact ⟨_, rfl⟩
    | some fault => cases drawn.symm.trans (Rect.sample_eq_error_iff.mpr region)

namespace Run

/-- A run of `n` frames whose agent can go on. -/
structure Going (c : Config α) (n : Nat) (r : Run α) : Prop where
  mode : ∃ m, r.agent.InMode c m
  ticks : r.agent.mind.ticks = n

variable {n : Nat} {r : Run α}

/-- What is done with the agent between two updates does not stop it. -/
theorem Going.aside (h : r.Going c n) {o : Operation α} {r' : Run α}
    (done : r.agent.operate o = .ok r'.agent) (aside : o.rival? = none) : r'.Going c n := by
  refine ⟨Agent.inMode_operate h.mode done, ?_⟩
  obtain ⟨score, journal, same⟩ := Agent.operate_aside done aside
  rw [same]
  exact h.ticks

theorem Going.flush (h : r.Going c n) : r.flush.Going c n :=
  h.aside (o := .clearJournal) rfl rfl

theorem Going.score (h : r.Going c n) (turn : Turn) : (r.score turn).Going c n := by
  cases turn with
  | nobody | rival => exact ⟨h.mode, h.ticks⟩
  | agent => exact h.aside (o := .collide scoringGroup) rfl rfl

theorem Going.draw (h : r.Going c n) (draw : Bool) :
    (if draw then { r with agent := r.agent.recordDrawings } else r).Going c n := by
  split
  · exact h.aside (o := .draw) rfl rfl
  · exact h

variable (drawable : c.wanderRegion.fault? = none)

include drawable

/-- Where random points can be drawn, an agent that can go on goes through the next frame. -/
theorem Going.frame (h : r.Going c n) (s : Settings α) (tick : Nat) :
    ∃ r', Run.frame s tick r = .ok r' ∧ r'.Going c (n + 1) := by
  obtain ⟨m, mode⟩ := h.mode
  cases updated : r.agent.update (r.rival.walk s.frameTime).rival s.frameTime with
  | error e => cases drawable.symm.trans (mode.fault_update updated)
  | ok agent =>
    obtain ⟨mv, -, moved⟩ := mode.update_ok updated
    have going : Going c (n + 1) ⟨agent, r.rival.walk s.frameTime, r.log⟩ :=
      ⟨⟨_, moved.mode⟩, moved.ticks.trans (congrArg (· + 1) h.ticks)⟩
    have ended := ((going.score (.after s.scoreEvery tick)).draw s.draw).flush
    simp only [Run.frame, updated, Except.mapError, bind, Except.bind, pure, Except.pure]
    split
    · exact ⟨_, rfl, ended.mode, ended.ticks⟩
    · exact ⟨_, rfl, ended⟩

theorem Going.frames (h : r.Going c n) (s : Settings α) (tick k : Nat) :
    ∃ r', Run.frames s tick k r = .ok r' ∧ r'.Going c (n + k) := by
  induction k generalizing r n tick with
  | zero => exact ⟨r, rfl, h⟩
  | succ k ih =>
    obtain ⟨r₁, first, going⟩ := h.frame drawable s tick
    obtain ⟨r', rest, going'⟩ := ih going (tick + 1)
    refine ⟨r', ?_, ?_⟩
    · rw [Run.frames, first]
      exact rest
    · rwa [Nat.add_right_comm] at going'

end Run

/-- A run starts with an agent that can go on, unless no spawn point can be drawn. -/
theorem Run.start_outcome (checked : c.check = .ok ()) (s : Settings α) (entropy : Rng) :
    match c.wanderRegion.fault? with
    | none => ∃ r, start s c entropy = .ok r ∧ r.Going c 0
    | some fault => start s c entropy = .error (.fault fault) := by
  have built := AgentSpec.build_of_random ⟨c, none, s.seed⟩ rfl checked entropy
  cases region : c.wanderRegion.fault? with
  | none =>
    simp only [region] at built
    obtain ⟨a, built⟩ := built
    have going : Going c 0 ⟨a, shuttle c s.rivalSpeed, #[.started s]⟩ := by
      refine ⟨Agent.inMode_build built, ?_⟩
      obtain ⟨position, rng, frame, made⟩ := AgentSpec.build_made built
      rw [made]
      rfl
    refine ⟨_, ?_, going.flush⟩
    rw [start, built]
    rfl
  | some fault =>
    simp only [region] at built
    rw [start, built]
    rfl

/-- Whatever the environment and the contents of the configuration file, its settings are sound, and
a run ends in one of three ways: the configuration does not load; or it loads, and the run goes
through exactly as many frames as are set; or it loads, but there is no agent, since the corners of
the wander region are too far apart for a random point. -/
theorem Settings.run_outcome (env : Environment) (contents : Option (List UInt8)) (entropy : Rng) :
    let s := ofEnvironment env
    s.Sound ∧
      match Config.load s.agentConfig contents with
      | .error e => s.run contents entropy = (#[], some (.load e))
      | .ok c =>
        (Mind.decision c).WellFormed ∧ c.wanderRegion.Ordered ∧
          match c.wanderRegion.fault? with
          | none =>
            ∃ first last, Run.start s c entropy = .ok first ∧
              Run.frames s 1 s.ticks first = .ok last ∧
              last.agent.mind.ticks = s.ticks ∧
                s.run contents entropy = (last.log.push (.finished s.ticks last.agent.body), none)
          | some fault =>
            fault = .rangeOverflow ∧
              s.run contents entropy = (#[.started s], some (.build (.fault fault))) := by
  intro s
  refine ⟨sound_ofEnvironment env, ?_⟩
  cases loaded : Config.load s.agentConfig contents with
  | error e => simp only [run, loaded]
  | ok c =>
    have checked := Config.check_of_load loaded
    have ordered := Config.ordered_of_check checked
    have starts := Run.start_outcome checked s entropy
    refine ⟨Mind.wellFormed_decision c, ordered, ?_⟩
    cases region : c.wanderRegion.fault? with
    | none =>
      rw [region] at starts
      obtain ⟨first, started, going⟩ := starts
      obtain ⟨last, ended, gone⟩ := going.frames region s 1 s.ticks
      refine ⟨first, last, started, ended, gone.ticks.trans (Nat.zero_add _), ?_⟩
      simp only [run, loaded, started, ended]
    | some fault =>
      rw [region] at starts
      refine ⟨Rect.fault?_of_ordered ordered region, ?_⟩
      simp only [run, loaded, starts]

/-- An environment that names a configuration file. -/
def fileEnvironment : Environment :=
  [("NPC_AGENT_CONFIG", "agent.json".toUTF8.toList)]

/-- A configuration file for the widest arena, with random targets up to its edges. -/
def widestArenaFile : List UInt8 :=
  "\x7b\"arena_width\": 1.7976931348623157e308, \"wander_margin\": 0\x7d".toUTF8.toList

/-- The configuration of the widest arena loads, but no agent is built from it, and the program does
not come to its end. -/
theorem widest_arena_fails :
    (Config.load (Settings.ofEnvironment fileEnvironment).agentConfig
      (some widestArenaFile)).toOption.isSome = true ∧
      ((Settings.ofEnvironment fileEnvironment).run (some widestArenaFile) 0).2.map
        Run.Failure.exitCode = some 101 := by
  decide +kernel

end ArenaAgent
