import ArenaAgent.Proofs.Agent.Evaluation

/-!
What a step can do, by cases. `Steps` lists the moves of a mode, each with what the mode and the
body have to be like for it, and every step that does not break down is one of them (`steps_of_ok`).
-/
namespace ArenaAgent.Mode

variable {α : Type} [Scalar α]

/-- The agent goes its own way by the move. -/
inductive Strolls (m : Mode) (c : Config α) (deeds : List Nat) (b : Body α) : Move Mode α → Prop
  | patrol (going : m = .patrol) :
      Strolls m c deeds b (Mode.patrol.walking (deeds ++ [8]) (b.walkToTarget c.arrivalRadius))
  | nextStop (other : m ≠ .patrol) (stops : c.stops ≠ []) :
      Strolls m c deeds b
        (Mode.patrol.walking (deeds ++ [7, 8]) (b.aimAtNextStop.2.walkToTarget c.arrivalRadius))
  | wander (going : m = .wander) (stops : c.stops = []) :
      Strolls m c deeds b (Mode.wander.walking (deeds ++ [7, 10]) (b.walkToTarget c.arrivalRadius))
  | random (other : m ≠ .wander) (stops : c.stops = []) {status : Status} {aimed : Body α}
      (aims : b.aimAtRandom = .ok (status, aimed)) :
      Strolls m c deeds b (Mode.wander.walking (deeds ++ [7, 9, 10])
        (aimed.walkToTarget c.arrivalRadius))

/-- The agent flees from its rival: it neither chases it nor leaves it behind already. -/
def Flees (m : Mode) (c : Config α) (b : Body α) : Prop :=
  (m.Engaged ∨ b.rival.position.Within b.position c.senseRadius) ∧
    ¬ (m = .chase ∨ b.rival.score < b.score) ∧ m ≠ .evadeWander

instance (m : Mode) (c : Config α) (b : Body α) : Decidable (m.Flees c b) :=
  inferInstanceAs (Decidable (_ ∧ _ ∧ _))

inductive Steps (m : Mode) (c : Config α) (b : Body α) : Move Mode α → Prop
  | chase (start : m.Engaged ∨ b.rival.position.Within b.position c.senseRadius)
      (decided : m = .chase ∨ b.rival.score < b.score) :
      Steps m c b
        (Mode.chase.walking [2]
          ({ b with target := b.rival.position }.walkToTarget c.arrivalRadius))
  | leave (going : m = .evadeWander) (behind : ¬ b.rival.score < b.score) :
      Steps m c b (Mode.evadeWander.walking [6] (b.walkToTarget c.arrivalRadius))
  | flee (flees : m.Flees c b) (running : (fleeing b).1 = .running) :
      Steps m c b ⟨.running, .flee, (fleeing b).2, [3]⟩
  /-- The flight is over, and the rival is still near. -/
  | unsettled (flees : m.Flees c b) (escaped : (fleeing b).1 = .success)
      (near : (fleeing b).2.position.Within (fleeing b).2.rival.position c.senseRadius)
      {mv : Move Mode α} (goes : Strolls m c [3, 4] (fleeing b).2 mv) : Steps m c b mv
  | settled (flees : m.Flees c b) (escaped : (fleeing b).1 = .success)
      (far : ¬ (fleeing b).2.position.Within (fleeing b).2.rival.position c.senseRadius)
      {status : Status} {aimed : Body α}
      (aims : { (fleeing b).2 with visual := .idle }.aimAtRandom = .ok (status, aimed)) :
      Steps m c b (Mode.evadeWander.walking [3, 4, 5, 6] (aimed.walkToTarget c.arrivalRadius))
  | stroll (free : ¬ (m.Engaged ∨ b.rival.position.Within b.position c.senseRadius))
      {mv : Move Mode α} (goes : Strolls m c [] b mv) : Steps m c b mv

theorem wanderOff_ok {m : Mode} {c : Config α} {ds : List Nat} {b : Body α} {mv : Move Mode α}
    (h : m.wanderOff c ds b = .ok mv) :
    ∃ status aimed, b.aimAtRandom = .ok (status, aimed) ∧
      mv = m.walking ds (aimed.walkToTarget c.arrivalRadius) := by
  rw [wanderOff] at h
  cases aims : b.aimAtRandom with
  | ok aimed =>
    rw [aims] at h
    cases h
    exact ⟨aimed.1, aimed.2, rfl, rfl⟩
  | error fault =>
    rw [aims] at h
    cases h

theorem strolls_of_ok {m : Mode} {c : Config α} {ds : List Nat} {b : Body α} {mv : Move Mode α}
    (h : m.stroll c ds b = .ok mv) : Strolls m c ds b mv := by
  by_cases patrolling : m = .patrol
  · rw [stroll, if_pos patrolling] at h
    cases h
    exact .patrol patrolling
  · rw [stroll, if_neg patrolling] at h
    by_cases stops : c.stops = []
    · rw [if_neg (not_not_intro stops)] at h
      by_cases wandering : m = .wander
      · rw [if_pos wandering] at h
        cases h
        exact .wander wandering stops
      · rw [if_neg wandering] at h
        obtain ⟨status, aimed, aims, rfl⟩ := wanderOff_ok h
        exact .random wandering stops aims
    · rw [if_pos stops] at h
      cases h
      exact .nextStop patrolling stops

theorem fleeing_status (b : Body α) : (fleeing b).1 = .running ∨ (fleeing b).1 = .success :=
  b.fleeFrom_status b.rival.position

theorem fleeing_spared (b : Body α) :
    (fleeing b).2.target = b.target ∧ (fleeing b).2.patrol = b.patrol ∧
      (fleeing b).2.rival = b.rival := by
  simp only [fleeing]
  split <;> exact ⟨rfl, rfl, rfl⟩

theorem steps_of_flight {m : Mode} {c : Config α} {b : Body α} (flees : m.Flees c b)
    {mv : Move Mode α} (h : m.engage c b = .ok mv) : Steps m c b mv := by
  rw [engage, if_neg flees.2.1, if_neg flees.2.2] at h
  rcases fleeing_status b with running | escaped
  · simp only [running, if_true] at h
    cases h
    exact .flee flees running
  · simp only [escaped, reduceCtorEq, if_false] at h
    split at h
    · rename_i near
      exact .unsettled flees escaped near (strolls_of_ok h)
    · rename_i far
      obtain ⟨status, aimed, aims, rfl⟩ := wanderOff_ok h
      exact .settled flees escaped far aims

theorem steps_of_ok {m : Mode} {c : Config α} {b : Body α} {mv : Move Mode α}
    (h : m.step c b = .ok mv) : Steps m c b mv := by
  by_cases start : m.Engaged ∨ b.rival.position.Within b.position c.senseRadius
  · rw [step, if_pos start] at h
    by_cases decided : m = .chase ∨ b.rival.score < b.score
    · rw [engage, if_pos decided] at h
      cases h
      exact .chase start decided
    · by_cases leaving : m = .evadeWander
      · rw [engage, if_neg decided, if_pos leaving] at h
        cases h
        exact .leave leaving fun ahead => decided (.inr ahead)
      · exact steps_of_flight ⟨start, decided, leaving⟩ h
  · rw [step, if_neg start] at h
    exact .stroll start (strolls_of_ok h)

end ArenaAgent.Mode
