import ArenaAgent.Proofs.Agent.Step

/-!
The tree of decisions does what its mode says. A tick of the tree suspended in a mode is a step of
that mode (`does_step`), so a run of the tree is a run of its modes.
-/
namespace ArenaAgent

variable {α : Type}

/-- A body with its own patrol: the stops are those of its configuration, and the next one
is one of them. -/
structure Body.Equipped (b : Body α) (c : Config α) : Prop where
  config : b.config = c
  stops : b.patrol.stops = c.stops
  proper : c.stops ≠ [] → b.patrol.Proper

namespace Body.Equipped

theorem spawn [Scalar α] (c : Config α) (position : Point α) (rng : Rng) :
    (Body.spawn c position rng).Equipped c :=
  ⟨rfl, rfl, (Patrol.proper_ofStops c.stops).mpr⟩

/-- Only the configuration and the patrol count. -/
theorem of_eq {b b' : Body α} {c : Config α} (h : b.Equipped c) (config : b'.config = b.config)
    (patrol : b'.patrol = b.patrol) : b'.Equipped c :=
  ⟨config.trans h.config, patrol ▸ h.stops, patrol ▸ h.proper⟩

theorem rest {b : Body α} {c : Config α} (h : b.Equipped c) : b.rest.Equipped c := by
  obtain ⟨visual, same⟩ := b.rest_body
  rw [same]
  exact h.of_eq rfl rfl

theorem aimAtNextStop {b : Body α} {c : Config α} (h : b.Equipped c) (stops : c.stops ≠ []) :
    ∃ aimed, b.aimAtNextStop = (.success, aimed) ∧ aimed.Equipped c := by
  cases next : b.patrol.next? with
  | none => exact absurd (h.proper stops) ((Patrol.next?_eq_none_iff _).mp next)
  | some stop =>
    obtain ⟨goal, patrol⟩ := stop
    have proper := Patrol.proper_of_next? _ _ _ next
    have kept : patrol.stops = b.patrol.stops := by
      obtain ⟨_, _, e⟩ := Option.map_eq_some_iff.mp next
      rw [← (Prod.mk.inj e).2]
    refine ⟨{ b with target := goal, patrol }.record (.patrolLeg b.patrol.index goal), ?_, h.config,
      kept.trans h.stops, fun _ => proper⟩
    rw [Body.aimAtNextStop, next]

theorem aimAtNextStop_of_nil {b : Body α} {c : Config α} (h : b.Equipped c) (stops : c.stops = []) :
    b.aimAtNextStop = (.failure, b) := by
  have none : b.patrol.next? = none := by
    rw [Patrol.next?_eq_none_iff, Patrol.Proper, h.stops, stops]
    exact Nat.not_lt_zero _
  rw [Body.aimAtNextStop, none]

theorem aimAtRandom [Scalar α] {b aimed : Body α} {c : Config α} (h : b.Equipped c)
    {status : Status} (aims : b.aimAtRandom = .ok (status, aimed)) : aimed.Equipped c := by
  obtain ⟨_, _, _, _, rfl⟩ := Body.aimAtRandom_ok aims
  exact h.of_eq rfl rfl

end Body.Equipped

namespace Mode

open ArenaAgent.Tree Pointers

theorem tree_eq (m : Mode) (c : Config α) :
    m.tree c = .node .reactive [m.engagementTree c, leg .aimAtNextStop c m.pointers.patrolLeg,
      leg .aimAtRandom c m.pointers.wanderLeg] m.pointers.decision :=
  rfl

theorem shape_detour (c : Config α) (r : Status × Body α) (ds : List Nat) :
    Pointers.responseTree c (if r.1 = .running then some 1 else none) none
      (if r.1 = .running then some 2 else none) (if r.1 = .running then some 1 else none) =
        (evadeWander.walking ds r).mind.responseTree c := by
  simp only [walking]
  split <;> rfl

variable [Scalar α]

/-- The tick `o` did what the move `mv` says. -/
def Does (c : Config α) (o : Outcome (Tree (Skill α)) (Except (Breakdown α) (Body α))) :
    Except (Breakdown α) (Move Mode α) → Prop
  | .ok mv =>
    o.status = mv.status ∧ o.next = mv.mind.tree c ∧ o.context = .ok mv.body ∧
      deeds o.visits = mv.deeds
  | .error e => o.context = .error e

/-! ## The legs -/

theorem abandon_legs (m : Mode) (c : Config α) (t : Tree (Skill α)) :
    (abandon 0 m.pointers.decision 0 [t, leg .aimAtNextStop c m.pointers.patrolLeg,
      leg .aimAtRandom c m.pointers.wanderLeg]).1 =
        [t, leg .aimAtNextStop c none, leg .aimAtRandom c none] := by
  cases m <;> rfl

/-- An engagement that does not fail drops the leg that was started. -/
theorem tick_tree_of_engagement (m : Mode) (c : Config α) (b : Body α)
    {o : Outcome (Tree (Skill α)) (Except (Breakdown α) (Body α))}
    (h : tick 0 (m.engagementTree c) (.ok b) = o) (taken : o.status ≠ .failure) :
    ∃ resets, tick 0 (m.tree c) (.ok b) =
      ⟨o.status, .node .reactive [o.next, leg .aimAtNextStop c none, leg .aimAtRandom c none]
        (if o.status = .running then some 0 else none), o.context, o.visits, resets⟩ := by
  have scan :
      tickForest .reactive 0 0 0 [m.engagementTree c, leg .aimAtNextStop c m.pointers.patrolLeg,
      leg .aimAtRandom c m.pointers.wanderLeg] (.ok b) =
        ⟨[o.next, leg .aimAtNextStop c m.pointers.patrolLeg,
          leg .aimAtRandom c m.pointers.wanderLeg], some (0, o.status), o.context, o.visits,
          o.resets⟩ := by
    simp only [tickForest, h, Kind.passing, if_neg taken]
  have start : Kind.reactive.start m.pointers.decision = 0 := rfl
  rw [tree_eq, tick_node_of_halt .reactive _ _ 0 _ start (congrArg Scan.halt scan), scan]
  simp only [abandon_legs]
  exact ⟨_, rfl⟩

theorem context_tick_tree_of_breakdown (m : Mode) (c : Config α) (b : Body α) {e : Breakdown α}
    (h : (tick 0 (m.engagementTree c) (.ok b)).context = .error e) :
    (tick 0 (m.tree c) (.ok b)).context = .error e := by
  rw [tree_eq, context_tick_node]
  exact context_tickForest_of_breakdown h _ _

section Legs

variable (m : Mode) (c : Config α) {b b' : Body α} {visits resets : List Nat}
  (failed : tick 0 (m.engagementTree c) (.ok b) =
    ⟨.failure, clean.engagementTree c, .ok b', visits, resets⟩)

include failed

/-- After an engagement that failed a patrol leg that does not fail decides. -/
theorem tick_tree_of_patrolLeg {status : Status} {next : Option Nat}
    {x : Except (Breakdown α) (Body α)} {legVisits : List Nat} (other : m ≠ .wander)
    (h : tick 7 (leg .aimAtNextStop c m.pointers.patrolLeg) (.ok b') =
      ⟨status, leg .aimAtNextStop c next, x, legVisits, []⟩) (taken : status ≠ .failure) :
    tick 0 (m.tree c) (.ok b) =
      ⟨status, .node .reactive
          [clean.engagementTree c, leg .aimAtNextStop c next, leg .aimAtRandom c none]
          (if status = .running then some 1 else none),
        x, visits ++ legVisits, resets⟩ := by
  have width : (m.engagementTree c).leafCount = 7 := rfl
  have scan :
      tickForest .reactive 0 0 0 [m.engagementTree c, leg .aimAtNextStop c m.pointers.patrolLeg,
          leg .aimAtRandom c m.pointers.wanderLeg] (.ok b) =
        ⟨[clean.engagementTree c, leg .aimAtNextStop c next,
            leg .aimAtRandom c m.pointers.wanderLeg],
          some (1, status), x, visits ++ legVisits, resets⟩ := by
    simp [tickForest, failed, Kind.passing, width, h, taken]
  have start : Kind.reactive.start m.pointers.decision = 0 := rfl
  have kept : ∀ ts : List (Tree (Skill α)), abandon 0 m.pointers.decision 1 ts = (ts, []) := by
    cases m <;> first | exact absurd rfl other | exact fun _ => rfl
  rw [tree_eq, tick_node_of_halt .reactive _ _ 0 _ start (congrArg Scan.halt scan), scan]
  simp only [kept, wanderLeg_eq_none other, List.append_nil]

/-- After an engagement and a patrol leg that failed the wander leg decides. -/
theorem tick_tree_of_wanderLeg {status : Status} {next : Option Nat}
    {x : Except (Breakdown α) (Body α)} {legVisits : List Nat}
    (h : tick 7 (leg .aimAtNextStop c m.pointers.patrolLeg) (.ok b') =
      ⟨.failure, leg .aimAtNextStop c none, .ok b', [7], []⟩)
    (h' : tick 9 (leg .aimAtRandom c m.pointers.wanderLeg) (.ok b') =
      ⟨status, leg .aimAtRandom c next, x, legVisits, []⟩) (taken : status ≠ .failure) :
    tick 0 (m.tree c) (.ok b) =
      ⟨status, .node .reactive
          [clean.engagementTree c, leg .aimAtNextStop c none, leg .aimAtRandom c next]
          (if status = .running then some 2 else none),
        x, visits ++ 7 :: legVisits, resets⟩ := by
  have width : (m.engagementTree c).leafCount = 7 := rfl
  have width' : (leg .aimAtNextStop c m.pointers.patrolLeg).leafCount = 2 := rfl
  have scan :
      tickForest .reactive 0 0 0 [m.engagementTree c, leg .aimAtNextStop c m.pointers.patrolLeg,
          leg .aimAtRandom c m.pointers.wanderLeg] (.ok b) =
        ⟨[clean.engagementTree c, leg .aimAtNextStop c none, leg .aimAtRandom c next],
          some (2, status), x, visits ++ 7 :: legVisits, resets⟩ := by
    simp [tickForest, failed, Kind.passing, width, width', h, h', taken]
  have start : Kind.reactive.start m.pointers.decision = 0 := rfl
  have kept : ∀ ts : List (Tree (Skill α)), abandon 0 m.pointers.decision 2 ts = (ts, []) := by
    cases m <;> exact fun _ => rfl
  rw [tree_eq, tick_node_of_halt .reactive _ _ 0 _ start (congrArg Scan.halt scan), scan]
  simp only [kept, List.append_nil]

theorem context_tick_tree_of_legs {x : Except (Breakdown α) (Body α)} {next : Tree (Skill α)}
    {legVisits : List Nat}
    (h : tick 7 (leg .aimAtNextStop c m.pointers.patrolLeg) (.ok b') =
      ⟨.failure, leg .aimAtNextStop c none, .ok b', [7], []⟩)
    (h' : tick 9 (leg .aimAtRandom c m.pointers.wanderLeg) (.ok b') =
      ⟨.failure, next, x, legVisits, []⟩) :
    (tick 0 (m.tree c) (.ok b)).context = x := by
  have width : (m.engagementTree c).leafCount = 7 := rfl
  have width' : (leg .aimAtNextStop c m.pointers.patrolLeg).leafCount = 2 := rfl
  rw [tree_eq, context_tick_node]
  simp [tickForest, Kind.start, Kind.passing, failed, width, width', h, h']

theorem does_patrolLeg (other : m ≠ .wander) (walker : Body α) {legVisits : List Nat}
    (h : tick 7 (leg .aimAtNextStop c m.pointers.patrolLeg) (.ok b') =
      (let r := walker.walkToTarget c.arrivalRadius
      ⟨r.1, leg .aimAtNextStop c (if r.1 = .running then some 1 else none), .ok r.2,
        legVisits, []⟩)) :
    Does c (tick 0 (m.tree c) (.ok b))
      (.ok (patrol.walking (deeds visits ++ deeds legVisits)
        (walker.walkToTarget c.arrivalRadius))) := by
  rw [m.tick_tree_of_patrolLeg c failed other h (walker.walkToTarget_ne_failure _)]
  refine ⟨rfl, ?_, rfl, List.filter_append ..⟩
  rcases walker.walkToTarget_status c.arrivalRadius with hr | hr <;> simp only [walking, hr] <;> rfl

theorem does_wanderLeg (walker : Body α) {legVisits : List Nat}
    (h : tick 7 (leg .aimAtNextStop c m.pointers.patrolLeg) (.ok b') =
      ⟨.failure, leg .aimAtNextStop c none, .ok b', [7], []⟩)
    (h' : tick 9 (leg .aimAtRandom c m.pointers.wanderLeg) (.ok b') =
      (let r := walker.walkToTarget c.arrivalRadius
      ⟨r.1, leg .aimAtRandom c (if r.1 = .running then some 1 else none), .ok r.2,
        legVisits, []⟩)) :
    Does c (tick 0 (m.tree c) (.ok b))
      (.ok (wander.walking (deeds visits ++ 7 :: deeds legVisits)
        (walker.walkToTarget c.arrivalRadius))) := by
  rw [m.tick_tree_of_wanderLeg c failed h h' (walker.walkToTarget_ne_failure _)]
  refine ⟨rfl, ?_, rfl, List.filter_append ..⟩
  rcases walker.walkToTarget_status c.arrivalRadius with hr | hr <;> simp only [walking, hr] <;> rfl

/-- After an engagement that failed the agent goes its own way. -/
theorem does_stroll (fits : m.Fits c) (equipped : b'.Equipped c) :
    Does c (tick 0 (m.tree c) (.ok b)) (m.stroll c (deeds visits) b') := by
  by_cases patrolling : m = .patrol
  · subst patrolling
    rw [stroll, if_pos rfl]
    exact does_patrolLeg _ c failed (by decide) b' (tick_leg_started .aimAtNextStop c 7 b')
  · have fresh := patrolLeg_eq_none patrolling
    rw [stroll, if_neg patrolling]
    by_cases stops : c.stops = []
    · have leg := tick_leg_of_failure .aimAtNextStop c 7 b' b' fresh
        (congrArg Except.ok (equipped.aimAtNextStop_of_nil stops))
      rw [if_neg (not_not_intro stops)]
      by_cases wandering : m = .wander
      · subst wandering
        rw [if_pos rfl]
        exact does_wanderLeg _ c failed b' leg (tick_leg_started .aimAtRandom c 9 b')
      · have fresh' := wanderLeg_eq_none wandering
        rw [if_neg wandering, wanderOff]
        cases aims : b'.aimAtRandom with
        | ok aimed =>
          obtain ⟨status, aimed⟩ := aimed
          obtain rfl := Body.aimAtRandom_status aims
          have walk := tick_leg .aimAtRandom c 9 b' aimed fresh' aims
          exact does_wanderLeg _ c failed aimed leg walk
        | error fault =>
          have leg' := tick_leg_of_fault .aimAtRandom c 9 b' fault fresh' aims
          exact context_tick_tree_of_legs m c failed leg leg'
    · obtain ⟨aimed, aims, -⟩ := equipped.aimAtNextStop stops
      have walk := tick_leg .aimAtNextStop c 7 b' aimed fresh (congrArg Except.ok aims)
      rw [if_pos stops, aims]
      exact does_patrolLeg _ c failed (fun h => stops (fits.2 h)) aimed walk

end Legs

theorem walking_taken {m : Mode} (engaged : m.Engaged) (ds : List Nat) (b : Body α) (arrival : α) :
    let mv := m.walking ds (b.walkToTarget arrival)
    mv.status = .running ∧ mv.mind.Engaged ∨ mv.status = .success ∧ mv.mind = .clean := by
  rcases b.walkToTarget_status arrival with hr | hr
  · exact .inl ⟨hr, by simpa only [walking, hr, if_true]⟩
  · exact .inr ⟨hr, by simp only [walking, hr, reduceCtorEq, if_false]⟩

theorem equipped_fleeing {b : Body α} {c : Config α} (h : b.Equipped c) :
    (fleeing b).2.Equipped c := by
  simp only [fleeing]
  split <;> exact h.of_eq rfl rfl

/-! ## The response -/

section Response

variable (m : Mode) (c : Config α) (b : Body α)

/-- An agent that is ahead of its rival, or that was chasing it, chases it. -/
theorem response_of_decided (decided : m = .chase ∨ b.rival.score < b.score) :
    let r := { b with target := b.rival.position }.walkToTarget c.arrivalRadius
    ∃ visits resets, tick 1 (m.responseTree c) (.ok b) =
      ⟨r.1, (chase.walking [2] r).mind.responseTree c, .ok r.2, visits, resets⟩ ∧
        deeds visits = [2] := by
  intro r
  have pursuit : ∃ visits, tick 1 (pursuitTree c m.pointers.pursuit) (.ok b) =
      ⟨r.1, pursuitTree c (if r.1 = .running then some 1 else none), .ok r.2, visits, []⟩ ∧
        deeds visits = [2] := by
    by_cases chasing : m = .chase
    · subst chasing
      exact ⟨_, tick_pursuit_started c b, rfl⟩
    · rw [pursuit_eq_none chasing]
      exact ⟨_, tick_pursuit_ahead c b (decided.resolve_left chasing), rfl⟩
  obtain ⟨visits, pursuit, done⟩ := pursuit
  have response : ∃ resets, tick 1 (m.responseTree c) (.ok b) = _ :=
    tick_response_of_pursuit c b pursuit (Body.walkToTarget_ne_failure _ _) (by cases m <;> decide)
  obtain ⟨resets, response⟩ := response
  have shape : Pointers.responseTree c (if r.1 = .running then some 0 else none)
      (if r.1 = .running then some 1 else none) none none =
        (chase.walking [2] r).mind.responseTree c := by
    simp only [walking]
    split <;> rfl
  rw [shape] at response
  exact ⟨visits, resets, response, done⟩

/-- An agent on its way after a flight walks on. -/
theorem response_of_leaving (behind : ¬ b.rival.score < b.score) :
    let r := b.walkToTarget c.arrivalRadius
    tick 1 (evadeWander.responseTree c) (.ok b) =
      ⟨r.1, (evadeWander.walking [6] r).mind.responseTree c, .ok r.2, [1, 6], []⟩ := by
  intro r
  have response : tick 1 (evadeWander.responseTree c) (.ok b) = _ :=
    tick_response_of_evasion c b behind (by decide) (tick_evasion_started c b)
  rw [shape_detour] at response
  exact response

/-- For any other agent the evasion decides. -/
theorem response_of_evasion (chasing : m ≠ .chase) (leaving : m ≠ .evadeWander)
    (behind : ¬ b.rival.score < b.score) {status : Status} {next next' : Option Nat}
    {x : Except (Breakdown α) (Body α)} {visits : List Nat}
    (h : tick 3 (evasionTree c m.pointers.evasion none) (.ok b) =
      ⟨status, evasionTree c next next', x, visits, []⟩) :
    tick 1 (m.responseTree c) (.ok b) =
      ⟨status, Pointers.responseTree c (if status = .running then some 1 else none) none next next',
        x, 1 :: visits, []⟩ := by
  have fresh : m.pointers.detour = none := by
    cases m <;> first | rfl | exact absurd rfl leaving
  have held : ∀ j ∈ m.pointers.response, j ≤ 1 := by
    cases m <;> decide
  rw [responseTree, pursuit_eq_none chasing, fresh]
  exact tick_response_of_evasion c b behind held h

/-- What comes of a response in which the agent flees. -/
inductive Flight (c : Config α) (b : Body α) :
    Outcome (Tree (Skill α)) (Except (Breakdown α) (Body α)) → Prop
  | running (running : (fleeing b).1 = .running) :
      Flight c b ⟨.running, flee.responseTree c, .ok (fleeing b).2, [1, 3], []⟩
  /-- The flight is over, and the rival is still near. -/
  | unsettled (escaped : (fleeing b).1 = .success)
      (near : (fleeing b).2.position.Within (fleeing b).2.rival.position c.senseRadius) :
      Flight c b ⟨.failure, clean.responseTree c, .ok (fleeing b).2, [1, 3, 4], []⟩
  | settled (escaped : (fleeing b).1 = .success)
      (far : ¬ (fleeing b).2.position.Within (fleeing b).2.rival.position c.senseRadius)
      {aimed : Body α}
      (aims : { (fleeing b).2 with visual := .idle }.aimAtRandom = .ok (.success, aimed)) :
      Flight c b (let r := aimed.walkToTarget c.arrivalRadius
        ⟨r.1, (evadeWander.walking [3, 4, 5, 6] r).mind.responseTree c, .ok r.2,
          [1, 3, 4, 5, 6], []⟩)
  | broken (escaped : (fleeing b).1 = .success)
      (far : ¬ (fleeing b).2.position.Within (fleeing b).2.rival.position c.senseRadius)
      {fault : Fault} (fails : { (fleeing b).2 with visual := .idle }.aimAtRandom = .error fault) :
      Flight c b ⟨.failure, clean.responseTree c,
        .error ⟨fault, { (fleeing b).2 with visual := .idle }⟩, [1, 3, 4, 5], []⟩

theorem response_of_fleeing (chasing : m ≠ .chase) (leaving : m ≠ .evadeWander)
    (behind : ¬ b.rival.score < b.score) : Flight c b (tick 1 (m.responseTree c) (.ok b)) := by
  have before := evasion_of_ne leaving
  cases fleeing_status b with
  | inl running =>
    have flee : Skill.flee.perform b = .ok (.running, (fleeing b).2) := running ▸ rfl
    rw [response_of_evasion m c b chasing leaving behind (tick_evasion_running c b _ before flee)]
    exact .running running
  | inr escaped =>
    have flee : Skill.flee.perform b = .ok (.success, (fleeing b).2) := escaped ▸ rfl
    by_cases near : (fleeing b).2.position.Within (fleeing b).2.rival.position c.senseRadius
    · rw [response_of_evasion m c b chasing leaving behind
        (tick_evasion_unsettled c b _ before flee near)]
      exact .unsettled escaped near
    · cases aims : { (fleeing b).2 with visual := .idle }.aimAtRandom with
      | ok r =>
        obtain ⟨status, aimed⟩ := r
        obtain rfl := Body.aimAtRandom_status aims
        rw [response_of_evasion m c b chasing leaving behind
          (tick_evasion_settled c b _ aimed before flee near aims), shape_detour]
        exact .settled escaped near aims
      | error fault =>
        rw [response_of_evasion m c b chasing leaving behind
          (tick_evasion_of_fault c b _ fault before flee near aims)]
        exact .broken escaped near aims

end Response

section Engagement

variable (m : Mode) (c : Config α) {b : Body α}
  (start : m.Engaged ∨ b.rival.position.Within b.position c.senseRadius)

include start

/-- The question whether the rival is near is asked at most once, and it makes no
difference afterwards. -/
theorem tick_engagementTree {o : Outcome (Tree (Skill α)) (Except (Breakdown α) (Body α))}
    (h : tick 1 (m.responseTree c) (.ok b) = o) :
    ∃ visits, tick 0 (m.engagementTree c) (.ok b) =
      ⟨o.status, .node .sequence [.leaf (.rivalNear c.senseRadius), o.next]
        (if o.status = .running then some 1 else none), o.context, visits, o.resets⟩ ∧
      deeds visits = deeds o.visits := by
  by_cases engaged : m.Engaged
  · have held : m.pointers.engagement = some 1 := by
      rcases engaged with rfl | rfl | rfl <;> rfl
    refine ⟨o.visits, ?_, rfl⟩
    rw [engagementTree, held]
    exact tick_engagement_started c b h
  · have near := start.resolve_left engaged
    have idle : m.pointers.engagement = none := by
      cases m <;> first | rfl | exact absurd (by decide) engaged
    refine ⟨0 :: o.visits, ?_, rfl⟩
    rw [engagementTree, idle]
    exact tick_engagement_near c b near h

theorem does_response {mv : Move Mode α} {visits resets : List Nat}
    (h : tick 1 (m.responseTree c) (.ok b) =
      ⟨mv.status, mv.mind.responseTree c, .ok mv.body, visits, resets⟩)
    (taken : mv.status = .running ∧ mv.mind.Engaged ∨ mv.status = .success ∧ mv.mind = .clean)
    (done : deeds visits = mv.deeds) :
    Does c (tick 0 (m.tree c) (.ok b)) (.ok mv) := by
  obtain ⟨visits', engaged, same⟩ := tick_engagementTree m c start h
  obtain ⟨resets', whole⟩ :=
    tick_tree_of_engagement m c b engaged (by rcases taken with h | h <;> simp [h])
  rw [whole]
  refine ⟨rfl, ?_, rfl, same.trans done⟩
  rcases mv with ⟨status, mind, body, _⟩
  rcases taken with ⟨rfl, rfl | rfl | rfl⟩ | ⟨rfl, rfl⟩ <;> rfl

theorem does_chase (decided : m = .chase ∨ b.rival.score < b.score) :
    Does c (tick 0 (m.tree c) (.ok b))
      (.ok (chase.walking [2]
        ({ b with target := b.rival.position }.walkToTarget c.arrivalRadius))) := by
  obtain ⟨visits, resets, response, done⟩ := response_of_decided m c b decided
  exact does_response m c start response (walking_taken (.inl rfl) _ _ _) done

theorem does_evadeWander (started : m = .evadeWander) (behind : ¬ b.rival.score < b.score) :
    Does c (tick 0 (m.tree c) (.ok b))
      (.ok (evadeWander.walking [6] (b.walkToTarget c.arrivalRadius))) := by
  subst started
  exact does_response _ c start (response_of_leaving c b behind)
    (walking_taken (.inr (.inr rfl)) _ _ _) rfl

/-- Any other agent flees. -/
theorem does_flee (fits : m.Fits c) (equipped : b.Equipped c) (chasing : m ≠ .chase)
    (leaving : m ≠ .evadeWander) (behind : ¬ b.rival.score < b.score) :
    Does c (tick 0 (m.tree c) (.ok b)) (m.engage c b) := by
  have flight := response_of_fleeing m c b chasing leaving behind
  generalize response : tick 1 (m.responseTree c) (.ok b) = o at flight
  rw [engage, if_neg (by simp [chasing, behind]), if_neg leaving]
  cases flight with
  | running running =>
    simp only [running, if_true]
    exact does_response m c start response (.inl ⟨rfl, .inr (.inl rfl)⟩) rfl
  | unsettled escaped near =>
    obtain ⟨visits, failed, done⟩ := tick_engagementTree m c start response
    have went := m.does_stroll c failed fits (equipped_fleeing equipped)
    rw [done] at went
    simp only [escaped, reduceCtorEq, if_false, if_pos near]
    exact went
  | settled escaped far aims =>
    simp only [escaped, reduceCtorEq, if_false, if_neg far, wanderOff, aims]
    exact does_response _ c start response (walking_taken (.inr (.inr rfl)) _ _ _) rfl
  | broken escaped far fails =>
    obtain ⟨visits, broken, -⟩ := tick_engagementTree m c start response
    simp only [escaped, reduceCtorEq, if_false, if_neg far, wanderOff, fails]
    exact context_tick_tree_of_breakdown m c b (congrArg Outcome.context broken)

end Engagement

/-! ## What a step keeps -/

/-- A move of an agent that stays in order. -/
def Kept (c : Config α) (mv : Move Mode α) : Prop :=
  mv.mind.Fits c ∧ mv.body.Equipped c

omit [Scalar α] in
theorem fits_clean (c : Config α) : clean.Fits c :=
  ⟨nofun, nofun⟩

omit [Scalar α] in
theorem fits_of_engaged {m : Mode} (h : m.Engaged) (c : Config α) : m.Fits c := by
  rcases h with rfl | rfl | rfl <;> exact ⟨nofun, nofun⟩

theorem kept_walking {m : Mode} {c : Config α} {b : Body α} (fits : m.Fits c)
    (equipped : b.Equipped c) (ds : List Nat) (arrival : α) :
    Kept c (m.walking ds (b.walkToTarget arrival)) := by
  refine ⟨?_, equipped.of_eq rfl rfl⟩
  simp only [walking]
  split
  · exact fits
  · exact fits_clean c

theorem kept_strolls {m : Mode} {c : Config α} {b : Body α} (fits : m.Fits c)
    (equipped : b.Equipped c) {ds : List Nat} {mv : Move Mode α} (goes : Strolls m c ds b mv) :
    Kept c mv := by
  cases goes with
  | patrol going => exact kept_walking (going ▸ fits) equipped _ _
  | nextStop other stops =>
    obtain ⟨aimed, aims, equipped'⟩ := equipped.aimAtNextStop stops
    have fits : Mode.patrol.Fits c := ⟨fun _ => stops, nofun⟩
    rw [aims]
    exact kept_walking fits equipped' _ _
  | wander going stops => exact kept_walking (going ▸ fits) equipped _ _
  | random other stops aims =>
    have fits : Mode.wander.Fits c := ⟨nofun, fun _ => stops⟩
    exact kept_walking fits (equipped.aimAtRandom aims) _ _

/-- A step leads from fitting modes to fitting modes, and the body keeps its patrol in order. -/
theorem kept_step {m : Mode} {c : Config α} {b : Body α} (fits : m.Fits c) (equipped : b.Equipped c)
    {mv : Move Mode α} (h : m.step c b = .ok mv) : Kept c mv := by
  have engaged {m : Mode} (h : m.Engaged) := fits_of_engaged h c
  have fled := equipped_fleeing equipped
  cases steps_of_ok h with
  | chase =>
    have aimed : { b with target := b.rival.position }.Equipped c := equipped.of_eq rfl rfl
    exact kept_walking (engaged (.inl rfl)) aimed _ _
  | leave => exact kept_walking (engaged (.inr (.inr rfl))) equipped _ _
  | flee => exact ⟨engaged (.inr (.inl rfl)), fled⟩
  | unsettled flees escaped near goes => exact kept_strolls fits fled goes
  | settled flees escaped far aims =>
    have idle : { (fleeing b).2 with visual := .idle }.Equipped c := fled.of_eq rfl rfl
    exact kept_walking (engaged (.inr (.inr rfl))) (idle.aimAtRandom aims) _ _
  | stroll free goes => exact kept_strolls fits equipped goes

/-- One tick of the tree suspended in a mode is one step of the mode. -/
theorem does_step (m : Mode) (c : Config α) (b : Body α) (fits : m.Fits c)
    (equipped : b.Equipped c) : Does c (tick 0 (m.tree c) (.ok b)) (m.step c b) := by
  by_cases start : m.Engaged ∨ b.rival.position.Within b.position c.senseRadius
  · rw [step, if_pos start]
    by_cases decided : m = .chase ∨ b.rival.score < b.score
    · rw [engage, if_pos decided]
      exact does_chase m c start decided
    · have behind : ¬ b.rival.score < b.score := fun h => decided (.inr h)
      by_cases leaving : m = .evadeWander
      · rw [engage, if_neg decided, if_pos leaving]
        exact does_evadeWander m c start leaving behind
      · exact does_flee m c start fits equipped (fun h => decided (.inl h)) leaving behind
  · rw [step, if_neg start]
    have clear : m.engagementTree c = clean.engagementTree c := by
      cases m <;> first | rfl | exact absurd (.inl (by decide)) start
    have failed : tick 0 (m.engagementTree c) (.ok b) =
        ⟨.failure, clean.engagementTree c, .ok b, [0], []⟩ := by
      rw [clear]
      exact tick_engagement_far c b fun h => start (.inr h)
    exact m.does_stroll c failed fits equipped

end Mode

end ArenaAgent
