import ArenaAgent.Binary64
import ArenaAgent.Proofs.Agent.Course

/-!
Whether an agent chases its rival in an update, or flees from it. The two questions of an
engagement are asked when it starts, and not while one of its deeds goes on. So an agent decides
by the distance and the scores of the moment only if it is not in the middle of a chase or of the
leg after a flight.
-/
namespace ArenaAgent

variable {α : Type}

namespace Skill

def Chases : Skill α → Prop
  | .chase _ => True
  | _ => False

instance : (k : Skill α) → Decidable k.Chases
  | .chase _ => .isTrue trivial
  | .rivalNear _ | .ahead | .walk _ | .flee | .settle _ | .aimAtRandom
  | .aimAtNextStop | .aimAt _ => .isFalse id

def Flees : Skill α → Prop
  | .flee => True
  | _ => False

instance : (k : Skill α) → Decidable k.Flees
  | .flee => .isTrue trivial
  | .rivalNear _ | .ahead | .chase _ | .walk _ | .settle _ | .aimAtRandom
  | .aimAtNextStop | .aimAt _ => .isFalse id

end Skill

variable [Scalar α]

namespace Mode

open ArenaAgent.Tree Pointers

variable (m : Mode) (c : Config α) (b : Body α)

theorem chase_mem_visits_pursuit :
    2 ∈ (tick 1 (pursuitTree c m.pointers.pursuit) (.ok b)).visits ↔
      m = .chase ∨ b.rival.score < b.score := by
  by_cases chasing : m = .chase
  · subst chasing
    simp [pointers, tick_pursuit_started]
  · rw [pursuit_eq_none chasing]
    by_cases ahead : b.rival.score < b.score
    · simp [tick_pursuit_ahead c b ahead, ahead]
    · simp [tick_pursuit_behind c b ahead, ahead, chasing]

theorem flee_mem_visits_evasion :
    3 ∈ (tick 3 (evasionTree c m.pointers.evasion m.pointers.detour) (.ok b)).visits ↔
      m ≠ .evadeWander := by
  by_cases leaving : m = .evadeWander
  · subst leaving
    simp [pointers, tick_evasion_started]
  · have start : Kind.sequence.start m.pointers.evasion = 0 := by
      cases m <;> first | rfl | exact absurd rfl leaving
    rw [evasionTree, visits_tick_node, start]
    obtain ⟨later, visits, -⟩ := visits_tickForest_cons .sequence (.leaf .flee)
      [.leaf (.settle c.senseRadius), leg .aimAtRandom c m.pointers.detour] 3 0 (.ok b)
    rw [visits]
    simp [tick, leaving]

/-- An agent that chases its rival does nothing else in its response. -/
theorem visits_response_of_pursuit (decided : m = .chase ∨ b.rival.score < b.score) :
    (tick 1 (m.responseTree c) (.ok b)).visits =
      (tick 1 (pursuitTree c m.pointers.pursuit) (.ok b)).visits := by
  have taken : (tick 1 (pursuitTree c m.pointers.pursuit) (.ok b)).status ≠
      Kind.reactive.passing := by
    have walks := { b with target := b.rival.position }.walkToTarget_ne_failure c.arrivalRadius
    by_cases chasing : m = .chase
    · subst chasing
      simp only [pointers, tick_pursuit_started]
      exact walks
    · rw [pursuit_eq_none chasing, tick_pursuit_ahead c b (decided.resolve_left chasing)]
      exact walks
  rw [responseTree, Pointers.responseTree, visits_tick_node]
  simp only [tickForest, Kind.start, if_neg taken]

theorem visits_response_of_evasion (undecided : ¬ (m = .chase ∨ b.rival.score < b.score)) :
    (tick 1 (m.responseTree c) (.ok b)).visits =
      1 :: (tick 3 (evasionTree c m.pointers.evasion m.pointers.detour) (.ok b)).visits := by
  have behind := tick_pursuit_behind c b fun ahead => undecided (.inr ahead)
  have width : (pursuitTree c none : Tree (Skill α)).leafCount = 2 := rfl
  rw [responseTree, Pointers.responseTree, pursuit_eq_none fun chasing => undecided (.inl chasing),
    visits_tick_node]
  simp only [tickForest, Kind.start, Kind.passing, behind, width, if_true]
  split <;> simp

/-- The deeds of an engagement are those of its response. -/
theorem mem_visits_engagement {n : Nat} (deed : 1 < n) :
    n ∈ (tick 0 (m.engagementTree c) (.ok b)).visits ↔
      (m.Engaged ∨ b.rival.position.Within b.position c.senseRadius) ∧
        n ∈ (tick 1 (m.responseTree c) (.ok b)).visits := by
  have mem_deeds (ns : List Nat) : n ∈ deeds ns ↔ n ∈ ns := by
    simp [deeds, deed]
  by_cases start : m.Engaged ∨ b.rival.position.Within b.position c.senseRadius
  · obtain ⟨visits, engaged, same⟩ := tick_engagementTree m c start rfl
    rw [engaged, ← mem_deeds visits, same, mem_deeds]
    exact (and_iff_right start).symm
  · have clear : m.engagementTree c = clean.engagementTree c := by
      cases m <;> first | rfl | exact absurd (.inl (by decide)) start
    have far : tick 0 (clean.engagementTree c) (.ok b) = _ :=
      tick_engagement_far c b fun near => start (.inr near)
    rw [clear, far]
    simp only [start, false_and, iff_false, List.mem_singleton]
    omega

theorem mem_visits_tree {n : Nat} (early : n < 7) :
    n ∈ (tick 0 (m.tree c) (.ok b)).visits ↔ n ∈ (tick 0 (m.engagementTree c) (.ok b)).visits := by
  obtain ⟨later, visits, late⟩ := visits_tickForest_cons .reactive (m.engagementTree c)
    [leg .aimAtNextStop c m.pointers.patrolLeg, leg .aimAtRandom c m.pointers.wanderLeg] 0 0 (.ok b)
  have width : (m.engagementTree c).leafCount = 7 := rfl
  rw [tree_eq, visits_tick_node, Kind.start, visits, List.mem_append]
  refine or_iff_left fun mem => ?_
  have := late n mem
  omega

theorem chase_mem_visits :
    2 ∈ (tick 0 (m.tree c) (.ok b)).visits ↔
      (m.Engaged ∨ b.rival.position.Within b.position c.senseRadius) ∧
        (m = .chase ∨ b.rival.score < b.score) := by
  rw [mem_visits_tree m c b (by decide), mem_visits_engagement m c b (by decide)]
  refine and_congr_right fun _ => ?_
  by_cases decided : m = .chase ∨ b.rival.score < b.score
  · rw [visits_response_of_pursuit m c b decided, chase_mem_visits_pursuit]
  · have evasion := ascending_visits_tick (evasionTree c m.pointers.evasion m.pointers.detour) 3
      (.ok b : Except (Breakdown α) (Body α))
    rw [visits_response_of_evasion m c b decided]
    refine iff_of_false ?_ decided
    rintro (_ | ⟨_, mem⟩)
    exact absurd (evasion.2 2 mem).1 (by decide)

theorem flee_mem_visits :
    3 ∈ (tick 0 (m.tree c) (.ok b)).visits ↔ m.Flees c b := by
  rw [mem_visits_tree m c b (by decide), mem_visits_engagement m c b (by decide)]
  refine and_congr_right fun _ => ?_
  by_cases decided : m = .chase ∨ b.rival.score < b.score
  · have pursuit := ascending_visits_tick (pursuitTree c m.pointers.pursuit) 1
      (.ok b : Except (Breakdown α) (Body α))
    rw [visits_response_of_pursuit m c b decided]
    refine iff_of_false (fun mem => ?_) fun h => h.1 decided
    exact Nat.lt_irrefl 3 (pursuit.2 3 mem).2
  · rw [visits_response_of_evasion m c b decided, List.mem_cons, flee_mem_visits_evasion]
    simp only [decided, not_false_eq_true, true_and, or_iff_right_iff_imp]
    exact nofun

omit [Scalar α] in
theorem leaves_tree : (m.tree c).leaves =
    [.rivalNear c.senseRadius, .ahead, .chase c.arrivalRadius, .flee,
      .settle c.senseRadius, .aimAtRandom, .walk c.arrivalRadius, .aimAtNextStop,
      .walk c.arrivalRadius, .aimAtRandom, .walk c.arrivalRadius] :=
  rfl

omit [Scalar α] in
/-- The skills of the leaves visited include one with the property `P`, which leaf
number `n` alone has. -/
theorem exists_skill_iff {P : Skill α → Prop} {n : Nat}
    (only : ∀ i, (∃ k ∈ (m.tree c).leaves[i]?, P k) ↔ i = n) (visits : List Nat) :
    (∃ k ∈ visits.filterMap fun i => (m.tree c).leaves[i]?, P k) ↔ n ∈ visits := by
  simp only [List.mem_filterMap]
  constructor
  · rintro ⟨k, ⟨i, visited, found⟩, holds⟩
    exact (only i).mp ⟨k, found, holds⟩ ▸ visited
  · intro visited
    obtain ⟨k, found, holds⟩ := (only n).mpr rfl
    exact ⟨k, ⟨n, visited, found⟩, holds⟩

omit [Scalar α] in
theorem chases_leaf_iff (i : Nat) : (∃ k ∈ (m.tree c).leaves[i]?, k.Chases) ↔ i = 2 := by
  rw [leaves_tree]
  obtain _ | _ | _ | _ | _ | _ | _ | _ | _ | _ | _ | i := i <;> simp [Skill.Chases]

omit [Scalar α] in
theorem flees_leaf_iff (i : Nat) : (∃ k ∈ (m.tree c).leaves[i]?, k.Flees) ↔ i = 3 := by
  rw [leaves_tree]
  obtain _ | _ | _ | _ | _ | _ | _ | _ | _ | _ | _ | i := i <;> simp [Skill.Flees]

end Mode

namespace Agent

def Chases (a : Agent α) (rival : Rival α) (elapsed : α) : Prop :=
  ∃ k ∈ a.performed rival elapsed, k.Chases

instance (a : Agent α) (rival : Rival α) (elapsed : α) : Decidable (a.Chases rival elapsed) :=
  inferInstanceAs (Decidable (∃ k ∈ _, _))

def Flees (a : Agent α) (rival : Rival α) (elapsed : α) : Prop :=
  ∃ k ∈ a.performed rival elapsed, k.Flees

instance (a : Agent α) (rival : Rival α) (elapsed : α) : Decidable (a.Flees rival elapsed) :=
  inferInstanceAs (Decidable (∃ k ∈ _, _))

section InMode

variable {c : Config α} {m : Mode} {a : Agent α} (h : a.InMode c m) (rival : Rival α) (elapsed : α)

include h

theorem InMode.performed_eq :
    a.performed rival elapsed =
      (Tree.tick 0 (m.tree c) (.ok (a.perceived rival elapsed))).visits.filterMap
      fun n => (m.tree c).leaves[n]? := by
  rw [← h.tree]
  rfl

theorem InMode.chases_iff :
    a.Chases rival elapsed ↔
      (m.Engaged ∨ rival.position.Within a.body.position c.senseRadius) ∧
        (m = .chase ∨ rival.score < a.body.score) := by
  rw [Chases, h.performed_eq, m.exists_skill_iff c (m.chases_leaf_iff c)]
  exact m.chase_mem_visits c (a.perceived rival elapsed)

theorem InMode.flees_iff :
    a.Flees rival elapsed ↔
      (m.Engaged ∨ rival.position.Within a.body.position c.senseRadius) ∧
        ¬ (m = .chase ∨ rival.score < a.body.score) ∧ m ≠ .evadeWander := by
  rw [Flees, h.performed_eq, m.exists_skill_iff c (m.flees_leaf_iff c)]
  exact m.flee_mem_visits c (a.perceived rival elapsed)

end InMode

/-- The agent chases a rival that it outscores, and flees from any other. -/
def DecidesByScore (a : Agent α) (rival : Rival α) (elapsed : α) : Prop :=
  (a.Chases rival elapsed ↔ rival.score < a.body.score) ∧
    (a.Flees rival elapsed ↔ ¬ rival.score < a.body.score)

instance (a : Agent α) (rival : Rival α) (elapsed : α) :
    Decidable (a.DecidesByScore rival elapsed) :=
  inferInstanceAs (Decidable (_ ∧ _))

/-- With its rival near, an agent decides by the scores of the moment, unless it was chasing its
rival or was on the leg after a flight: a chase goes on without the lead, and the leg goes on until
the agent takes the lead. -/
theorem decision_near_rival {spec : AgentSpec α} {entropy : Rng} {a₀ a : Agent α}
    {os : List (Operation α)} (built : spec.build entropy = .ok a₀) (lived : a₀.live os = .ok a)
    {rival : Rival α} (near : rival.position.Within a.body.position spec.config.senseRadius)
    (elapsed : α) :
    (a.Chases rival elapsed ↔ a.LeftRunning .chase ∨ rival.score < a.body.score) ∧
      (a.Flees rival elapsed ↔
        ¬ (a.LeftRunning .chase ∨ rival.score < a.body.score) ∧ ¬ a.LeftRunning .evadeWander) ∧
      (a.DecidesByScore rival elapsed ↔
        rival.score < a.body.score ∨ ¬ (a.LeftRunning .chase ∨ a.LeftRunning .evadeWander)) := by
  obtain ⟨m, mode⟩ := inMode_live (inMode_build built) lived
  have chases := mode.chases_iff rival elapsed
  have flees := mode.flees_iff rival elapsed
  simp only [near, or_true, true_and] at chases flees
  simp only [mode.leftRunning_iff, DecidesByScore, chases, flees, true_and]
  grind

/-- The shipped agent at the right edge of its arena. -/
def edgeSpec : AgentSpec Float :=
  ⟨.shipped, some ⟨1280.0, 500.0⟩, some 7⟩

/-- The agent takes the lead and sets out after its rival, which stands behind the edge. -/
def edgeChase : List (Operation Float) :=
  [.collide scoringGroup, .update ⟨⟨1380.0, 500.0⟩, 0⟩ 2.0]

/-- The rival, where it was, in the lead. -/
def leadingRival : Rival Float :=
  ⟨⟨1380.0, 500.0⟩, 5⟩

/-- The rival at the other end of the arena. -/
def goneRival : Rival Float :=
  ⟨⟨100.0, 100.0⟩, 0⟩

theorem chase_without_lead :
    ∃ a₀ a, edgeSpec.build 0 = .ok a₀ ∧ a₀.live edgeChase = .ok a ∧
      leadingRival.position.Within a.body.position edgeSpec.config.senseRadius ∧
        ¬ a.DecidesByScore leadingRival 2.0 :=
  exists_life edgeSpec 0 edgeChase (by decide +kernel)

theorem edgeChase_goes_on :
    ∃ a₀ a, edgeSpec.build 0 = .ok a₀ ∧ a₀.live edgeChase = .ok a ∧
      leadingRival.position.Within a.body.position edgeSpec.config.senseRadius ∧
        a.Chases leadingRival 2.0 := by
  obtain ⟨a₀, a, built, lived, near, chasing⟩ := exists_life edgeSpec 0 edgeChase
    (P := fun a => leadingRival.position.Within a.body.position edgeSpec.config.senseRadius ∧
      a.LeftRunning .chase) (by decide +kernel)
  exact ⟨a₀, a, built, lived, near, (decision_near_rival built lived near 2.0).1.mpr (.inl chasing)⟩

/-- Far from its rival an agent chases it only in the middle of an engagement: it goes on with a
chase, or it took the lead during a flight or on the leg after one. -/
theorem chase_of_far_rival {spec : AgentSpec α} {entropy : Rng} {a₀ a : Agent α}
    {os : List (Operation α)} (built : spec.build entropy = .ok a₀) (lived : a₀.live os = .ok a)
    {rival : Rival α} (far : ¬ rival.position.Within a.body.position spec.config.senseRadius)
    (elapsed : α) :
    a.Chases rival elapsed ↔ a.LeftRunning .chase ∨
      rival.score < a.body.score ∧ (a.LeftRunning .flee ∨ a.LeftRunning .evadeWander) := by
  obtain ⟨m, mode⟩ := inMode_live (inMode_build built) lived
  rw [mode.chases_iff rival elapsed]
  simp only [far, or_false, mode.leftRunning_iff, Mode.Engaged]
  grind

theorem chase_of_gone_rival :
    ∃ a₀ a, edgeSpec.build 0 = .ok a₀ ∧ a₀.live edgeChase = .ok a ∧
      ¬ goneRival.position.Within a.body.position edgeSpec.config.senseRadius ∧
        a.Chases goneRival 20.0 :=
  exists_life edgeSpec 0 edgeChase (by decide +kernel)

theorem edgeChase_goes_far :
    ∃ a₀ a, edgeSpec.build 0 = .ok a₀ ∧ a₀.live edgeChase = .ok a ∧
      ¬ goneRival.position.Within a.body.position edgeSpec.config.senseRadius ∧
        a.Chases goneRival 2.0 := by
  obtain ⟨a₀, a, built, lived, far, chasing⟩ := exists_life edgeSpec 0 edgeChase
    (P := fun a => ¬ goneRival.position.Within a.body.position edgeSpec.config.senseRadius ∧
      a.LeftRunning .chase) (by decide +kernel)
  exact ⟨a₀, a, built, lived, far, (chase_of_far_rival built lived far 2.0).mpr (.inl chasing)⟩

end Agent

end ArenaAgent
