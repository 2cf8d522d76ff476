import ArenaAgent.Proofs.Agent.Footprint
import ArenaAgent.Proofs.Arena.Shuttling
import ArenaAgent.Proofs.Host.Completion

/-!
The scores of a run. Points are scored between updates alone, by the agent and its rival in turn, so
what the number of frames is decides what the scores are (`scores_of_run`), and an update compares
those after the frame before it.
-/
namespace ArenaAgent

variable {α : Type}

/-! ## Turns -/

/-- A point is scored whenever another round of frames is over: for the agent after an odd number of
rounds, and for the rival after an even number. -/
theorem Turn.after_cases (scoreEvery tick : Nat) :
    after scoreEvery (tick + 1) = .nobody ∧ (tick + 1) / scoreEvery = tick / scoreEvery ∨
      after scoreEvery (tick + 1) = .agent ∧ (tick + 1) / scoreEvery = tick / scoreEvery + 1 ∧
          tick / scoreEvery % 2 = 0 ∨
        after scoreEvery (tick + 1) = .rival ∧ (tick + 1) / scoreEvery = tick / scoreEvery + 1 ∧
          tick / scoreEvery % 2 = 1 := by
  by_cases round : scoreEvery ∣ tick + 1
  · have positive : 0 < scoreEvery := Nat.pos_of_dvd_of_pos round tick.succ_pos
    have count := Nat.succ_div_of_dvd round
    right
    rw [after, if_pos ⟨positive, Nat.mod_eq_zero_of_dvd round⟩, count]
    cases Nat.mod_two_eq_zero_or_one (tick / scoreEvery) with
    | inl even => exact .inl ⟨if_pos (by omega), rfl, even⟩
    | inr odd => exact .inr ⟨if_neg (by omega), rfl, odd⟩
  · have none : ¬ (0 < scoreEvery ∧ (tick + 1) % scoreEvery = 0) :=
      fun h => round (Nat.dvd_of_mod_eq_zero h.2)
    exact .inl ⟨if_neg none, Nat.succ_div_of_not_dvd round⟩

/-! ## Updates -/

section

variable [Scalar α]

/-- Whoever asks about the scores in the course of a tick compares those before the tick. -/
theorem Acted.ahead {b b' : Body α} {acts : List (Act α)} (h : Acted b acts b') {x : Act α}
    (mem : x ∈ acts) (asks : x.skill = .ahead) :
    x.result.map Prod.fst = .ok (.ofBool (b.rival.score < b.score)) := by
  induction h with
  | nil => cases mem
  | @cons b b₁ b' leaf k status acts done rest ih =>
    cases mem with
    | head =>
      cases asks
      cases done
      rfl
    | tail _ mem =>
      have rival : b₁.rival = b.rival := Skill.perform_sameAt (f := .rival) done id
      have score : b₁.score = b.score := Skill.perform_sameAt (f := .score) done id
      rw [← rival, ← score]
      exact ih mem
  | fault failed =>
    cases List.mem_singleton.mp mem
    cases asks
    cases failed

namespace Agent

theorem score_update {a a' : Agent α} {rival : Rival α} {elapsed : α}
    (h : a.update rival elapsed = .ok a') : a'.body.score = a.body.score := by
  obtain ⟨before, b, performs, tick, status, body⟩ := performs_update h
  obtain ⟨journal, same⟩ := recordTick_body before tick status b.rest
  have ticked : b.score = a.body.score := performs.sameAt (f := .score) fun _ _ => id
  obtain ⟨visual, rested⟩ := b.rest_body
  rw [body, same, rested]
  exact ticked

end Agent

end

/-! ## Runs -/

namespace Run

def scores (r : Run α) : UInt32 × UInt32 :=
  (r.agent.body.score, r.rival.rival.score)

/-- The scores after so many frames. After an odd number of rounds the agent is one point ahead, as
long as there are more points to be had. -/
structure Scored (scoreEvery ticks : Nat) (r : Run α) : Prop where
  agent : r.agent.body.score.toNat = min ((ticks / scoreEvery + 1) / 2) (UInt32.size - 1)
  rival : r.rival.rival.score.toNat = min (ticks / scoreEvery / 2) (UInt32.size - 1)

/-- The scores after a turn are a matter of those before. -/
theorem scores_score {r₁ r₂ : Run α} (same : r₁.scores = r₂.scores) (turn : Turn) :
    (r₁.score turn).scores = (r₂.score turn).scores := by
  obtain ⟨agent, rival⟩ := Prod.mk.inj same
  cases turn with
  | nobody => exact same
  | agent => exact Prod.ext (congrArg (addPoints · 1) agent) rival
  | rival => exact Prod.ext agent (congrArg (addPoints · 1) rival)

theorem Scored.lead_iff {scoreEvery ticks : Nat} {r : Run α} (h : r.Scored scoreEvery ticks) :
    r.rival.rival.score < r.agent.body.score ↔
      0 < scoreEvery ∧ ticks / scoreEvery % 2 = 1 ∧ ticks / scoreEvery < 2 * (UInt32.size - 1) := by
  rw [UInt32.lt_iff_toNat_lt, h.agent, h.rival]
  have none : scoreEvery = 0 → ticks / scoreEvery = 0 := fun zero => zero ▸ Nat.div_zero ticks
  omega

/-- One turn. -/
theorem Scored.score {scoreEvery ticks : Nat} {r : Run α} (h : r.Scored scoreEvery ticks) :
    (r.score (.after scoreEvery (ticks + 1))).Scored scoreEvery (ticks + 1) := by
  obtain ⟨agent, rival⟩ := h
  -- one more round raises the upper half of the count if it was even, and the lower half if it
  -- was odd
  rcases Turn.after_cases scoreEvery ticks with
    ⟨turn, rounds⟩ | ⟨turn, rounds, even⟩ | ⟨turn, rounds, odd⟩
  · rw [turn]
    exact ⟨rounds ▸ agent, rounds ▸ rival⟩
  · rw [turn]
    constructor
    · refine (toNat_addPoints r.agent.body.score 1).trans ?_
      rw [agent, rounds, UInt32.toNat_one]
      omega
    · refine rival.trans ?_
      rw [rounds]
      omega
  · rw [turn]
    constructor
    · refine agent.trans ?_
      rw [rounds]
      omega
    · refine (toNat_addPoints r.rival.rival.score 1).trans ?_
      rw [rival, rounds, UInt32.toNat_one]
      omega

variable [Scalar α]

theorem scores_draw (draw : Bool) (r : Run α) :
    (if draw then { r with agent := r.agent.recordDrawings } else r).scores = r.scores := by
  split
  · obtain ⟨journal, same⟩ := r.agent.recordDrawings_body
    have score : r.agent.recordDrawings.body.score = r.agent.body.score := by rw [same]
    exact Prod.ext score rfl
  · rfl

theorem score_walked (r : Run α) (elapsed : α) :
    (r.rival.walk elapsed).rival.score = r.rival.rival.score :=
  congrArg (·.rival.score) (r.rival.walk_scored r.rival.rival.score elapsed)

/-- What a frame does besides its turn leaves the scores alone: the rival walks, the agent is
updated and drawn, and the log is written. -/
theorem frame_ok {s : Settings α} {tick : Nat} {r r' : Run α} (h : frame s tick r = .ok r') :
    ∃ agent, r.agent.update (r.rival.walk s.frameTime).rival s.frameTime = .ok agent ∧
      agent.body.score = r.agent.body.score ∧
        r'.scores = (r.score (.after s.scoreEvery tick)).scores := by
  simp only [frame, bind, bind_eq_ok, mapError_eq_ok] at h
  obtain ⟨agent, updated, ended⟩ := h
  have kept := Agent.score_update updated
  have before : scores ⟨agent, r.rival.walk s.frameTime, r.log⟩ = r.scores :=
    Prod.ext kept (r.score_walked _)
  refine ⟨agent, updated, kept, ?_⟩
  refine Eq.trans ?_ (scores_score before _)
  refine Eq.trans ?_ (scores_draw s.draw _)
  split at ended <;> (cases ended; rfl)

/-- The turns alone make the scores. -/
theorem Scored.frame {s : Settings α} {ticks : Nat} {r r' : Run α} (h : r.Scored s.scoreEvery ticks)
    (gone : frame s (ticks + 1) r = .ok r') : r'.Scored s.scoreEvery (ticks + 1) := by
  obtain ⟨-, -, -, scores⟩ := frame_ok gone
  obtain ⟨agent, rival⟩ := Prod.mk.inj scores
  obtain ⟨agent', rival'⟩ := h.score
  exact ⟨agent ▸ agent', rival ▸ rival'⟩

theorem Scored.frames {s : Settings α} {ticks n : Nat} {r r' : Run α}
    (h : r.Scored s.scoreEvery ticks) (gone : frames s (ticks + 1) n r = .ok r') :
    r'.Scored s.scoreEvery (ticks + n) := by
  induction n generalizing ticks r with
  | zero =>
    cases gone
    exact h
  | succ n ih =>
    rw [Run.frames] at gone
    split at gone
    · rename_i r₁ first
      rw [← Nat.add_assoc, Nat.add_right_comm]
      exact ih (h.frame first) gone
    · cases gone

theorem scored_start {s : Settings α} {c : Config α} {entropy : Rng} {first : Run α}
    (started : start s c entropy = .ok first) : first.Scored s.scoreEvery 0 := by
  simp only [start, bind, bind_eq_ok] at started
  obtain ⟨agent, built, made⟩ := started
  cases made
  obtain ⟨position, rng, frame, same⟩ := AgentSpec.build_made built
  subst same
  constructor <;> rw [Nat.zero_div] <;> rfl

/-- Whoever starts does so with an agent that can go on. -/
theorem going_start {s : Settings α} {c : Config α} {entropy : Rng} {first : Run α}
    (started : start s c entropy = .ok first) : c.wanderRegion.fault? = none ∧ first.Going c 0 := by
  have checked : c.check = .ok () := by
    simp only [start, bind, bind_eq_ok] at started
    obtain ⟨agent, built, -⟩ := started
    exact (AgentSpec.build_ok built).1
  have outcome := start_outcome checked s entropy
  cases region : c.wanderRegion.fault? with
  | none =>
    rw [region] at outcome
    obtain ⟨r, started', going⟩ := outcome
    cases started.symm.trans started'
    exact ⟨rfl, going⟩
  | some fault =>
    rw [region] at outcome
    cases started.symm.trans outcome

/-- A run that started goes on for any number of frames, and their number decides the scores: with
every round of frames one more point is scored, by the agent first and by the two in turn from there
on, up to the greatest score. The update of the next frame compares these scores. In it the agent is
ahead exactly after an odd number of rounds, until there are no more points to be had. Nothing in
that frame changes a score except its turn. -/
theorem scores_of_run {s : Settings α} {c : Config α} {entropy : Rng} {first : Run α}
    (started : start s c entropy = .ok first) (ticks : Nat) :
    ∃ r r', frames s 1 ticks first = .ok r ∧ frame s (ticks + 1) r = .ok r' ∧
      let rounds := ticks / s.scoreEvery
      let seen := (r.rival.walk s.frameTime).rival
      r.agent.body.score.toNat = min ((rounds + 1) / 2) (UInt32.size - 1) ∧
        r.rival.rival.score.toNat = min (rounds / 2) (UInt32.size - 1) ∧
        seen.score = r.rival.rival.score ∧
        (seen.score < r.agent.body.score ↔
          0 < s.scoreEvery ∧ rounds % 2 = 1 ∧ rounds < 2 * (UInt32.size - 1)) ∧
        (∀ x ∈ r.agent.acts seen s.frameTime, x.skill = .ahead →
          x.result.map Prod.fst = .ok (.ofBool (seen.score < r.agent.body.score))) ∧
        (∃ agent, r.agent.update seen s.frameTime = .ok agent ∧
          agent.body.score = r.agent.body.score) ∧
        r'.scores = (r.score (.after s.scoreEvery (ticks + 1))).scores := by
  obtain ⟨drawable, going⟩ := going_start started
  obtain ⟨r, gone, going⟩ := going.frames drawable s 1 ticks
  obtain ⟨r', next, -⟩ := going.frame drawable s (ticks + 1)
  have scored : r.Scored s.scoreEvery (0 + ticks) := (scored_start started).frames gone
  rw [Nat.zero_add] at scored
  have seen := r.score_walked s.frameTime
  obtain ⟨agent, updated, kept, turn⟩ := frame_ok next
  refine ⟨r, r', gone, next, scored.agent, scored.rival, seen, ?_, ?_, ⟨agent, updated, kept⟩, turn⟩
  · rw [seen]
    exact scored.lead_iff
  · intro x mem asks
    exact (r.agent.acted_update _ s.frameTime).ahead mem asks

/-- A run in which every frame scores. -/
def scoringSettings : Settings Float :=
  { Settings.default with scoreEvery := 1, seed := some 7 }

/-- At its end both have the greatest score, and nobody is ahead, although it is after an odd
number of rounds. -/
theorem scores_saturate :
    ∃ first r, start scoringSettings .shipped 0 = .ok first ∧
      frames scoringSettings 1 8589934591 first = .ok r ∧ r.agent.body.score.toNat = 4294967295 ∧
        r.rival.rival.score.toNat = 4294967295 := by
  have begins := start_outcome Config.check_shipped scoringSettings 0
  have drawable : (Config.shipped : Config Float).wanderRegion.fault? = none := by decide +kernel
  rw [drawable] at begins
  obtain ⟨first, started, -⟩ := begins
  obtain ⟨r, -, gone, -, agent, rival, -⟩ := scores_of_run started 8589934591
  exact ⟨first, r, started, gone, agent, rival⟩

end Run

end ArenaAgent
