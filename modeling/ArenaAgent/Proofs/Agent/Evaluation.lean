import ArenaAgent.Proofs.Agent.Mode
import ArenaAgent.Proofs.Tree.Scan

/-!
Ticks of the parts of the tree of decisions, from the leaves up. Each lemma evaluates one composite
in one of the states in which a tick can find it, given what its children do.
-/
namespace ArenaAgent

variable {α : Type} [Scalar α]

namespace Body

theorem walkToTarget_status (b : Body α) (arrival : α) :
    (b.walkToTarget arrival).1 = .running ∨ (b.walkToTarget arrival).1 = .success := by
  simp only [walkToTarget, walkTo]
  split
  · exact .inr rfl
  · exact .inl rfl

theorem walkToTarget_ne_failure (b : Body α) (arrival : α) :
    (b.walkToTarget arrival).1 ≠ .failure := by
  rcases b.walkToTarget_status arrival with h | h <;> simp [h]

theorem aimAtRandom_status {b aimed : Body α} {status : Status}
    (h : b.aimAtRandom = .ok (status, aimed)) : status = .success := by
  obtain ⟨_, _, _, success, _⟩ := aimAtRandom_ok h
  exact success

theorem fleeFrom_status (b : Body α) (threat : Point α) :
    (b.fleeFrom threat).1 = .running ∨ (b.fleeFrom threat).1 = .success := by
  simp only [fleeFrom]
  split
  · exact .inl rfl
  · exact .inr rfl

end Body

namespace Tree

theorem tick_node (kind : Kind) (children : List (Tree (Skill α)))
    (pending : Option Nat) (base : Nat) (x : Except (Breakdown α) (Body α)) :
    tick base (.node kind children pending) x =
      (let scan := tickForest kind base 0 (kind.start pending) children x
      match scan.halt with
      | none =>
        ⟨kind.passing, .node kind scan.children none, scan.context, scan.visits, scan.resets⟩
      | some (stopped, status) =>
        let r := abandon base pending stopped scan.children
        ⟨status, .node kind r.1 (if status = .running then some stopped else none), scan.context,
          scan.visits, scan.resets ++ r.2⟩) :=
  rfl

theorem tick_leaf_of_perform {k : Skill α} {b b' : Body α} {status : Status}
    (h : k.perform b = .ok (status, b')) (base : Nat) :
    tick base (.leaf k) (.ok b) = ⟨status, .leaf k, .ok b', [base], []⟩ := by
  simp only [tick, Skill.tick_of_perform k b b' status h]

theorem tick_leaf_of_fault {k : Skill α} {b : Body α} {fault : Fault}
    (h : k.perform b = .error fault) (base : Nat) :
    tick base (.leaf k) (.ok b) = ⟨.failure, .leaf k, .error ⟨fault, b⟩, [base], []⟩ := by
  simp only [tick, Behavior.tick, Skill.tick, h]

theorem tick_walk (arrival : α) (base : Nat) (b : Body α) :
    tick base (.leaf (Skill.walk arrival)) (.ok b) =
      ⟨(b.walkToTarget arrival).1, .leaf (.walk arrival), .ok (b.walkToTarget arrival).2,
        [base], []⟩ :=
  rfl

theorem tick_chase (arrival : α) (base : Nat) (b : Body α) :
    tick base (.leaf (Skill.chase arrival)) (.ok b) =
      (let r := { b with target := b.rival.position }.walkToTarget arrival
      ⟨r.1, .leaf (.chase arrival), .ok r.2, [base], []⟩) :=
  rfl

/-- A scan that its first child ends in a breakdown stays broken down. -/
theorem context_tickForest_error (kind : Kind) (ts : List (Tree (Skill α)))
    (ih : ∀ t ∈ ts, ∀ (base : Nat) (e : Breakdown α), (tick base t (.error e)).context = .error e)
    (base index skip : Nat) (e : Breakdown α) :
    (tickForest kind base index skip ts (.error e)).context = .error e := by
  induction ts generalizing base index skip with
  | nil => rfl
  | cons t ts ihts =>
    have rest := ihts fun s hs => ih s (List.mem_cons_of_mem _ hs)
    cases skip with
    | succ skip => exact rest _ _ skip
    | zero =>
      have first := ih t (List.mem_cons_self ..) base e
      simp only [tickForest]
      split
      · rw [first]
        exact rest _ _ 0
      · exact first

theorem context_tick_node (kind : Kind) (ts : List (Tree (Skill α)))
    (pointer : Option Nat) (base : Nat) (x : Except (Breakdown α) (Body α)) :
    (tick base (.node kind ts pointer) x).context =
      (tickForest kind base 0 (kind.start pointer) ts x).context := by
  simp only [tick]
  split <;> rfl

/-- After a breakdown nothing happens any more. -/
theorem context_tick_error (t : Tree (Skill α)) (base : Nat) (e : Breakdown α) :
    (tick base t (.error e)).context = .error e := by
  induction t generalizing base e with
  | leaf k => rfl
  | node kind children pointer ih =>
    rw [context_tick_node]
    exact context_tickForest_error kind children (fun t ht base e => ih t ht base e) _ _ _ e

/-- A child that breaks down ends the scan, whichever children come after it. -/
theorem context_tickForest_of_breakdown {kind : Kind} {t : Tree (Skill α)} {base : Nat}
    {x : Except (Breakdown α) (Body α)} {e : Breakdown α} (h : (tick base t x).context = .error e)
    (ts : List (Tree (Skill α))) (index : Nat) :
    (tickForest kind base index 0 (t :: ts) x).context = .error e := by
  simp only [tickForest]
  split
  · rw [h]
    exact context_tickForest_error kind ts (fun t _ base e => context_tick_error t base e) _ _ _ e
  · exact h

end Tree

namespace Pointers

open ArenaAgent.Tree

/-! ## Legs -/

/-- A leg that was started goes on with the walk. -/
theorem tick_leg_started (aim : Skill α) (c : Config α) (base : Nat) (b : Body α) :
    tick base (leg aim c (some 1)) (.ok b) =
      (let r := b.walkToTarget c.arrivalRadius
      ⟨r.1, leg aim c (if r.1 = .running then some 1 else none), .ok r.2, [base + 1], []⟩) := by
  rcases b.walkToTarget_status c.arrivalRadius with h | h <;>
    simp [leg, tick_node, tickForest, Kind.start, Kind.passing, abandon, tick_walk, h]

/-- A leg starts with the choice of its target. -/
theorem tick_leg (aim : Skill α) (c : Config α) (base : Nat) (b aimed : Body α)
    {pointer : Option Nat} (idle : pointer = none) (h : aim.perform b = .ok (.success, aimed)) :
    tick base (leg aim c pointer) (.ok b) =
      (let r := aimed.walkToTarget c.arrivalRadius
      ⟨r.1, leg aim c (if r.1 = .running then some 1 else none), .ok r.2,
        [base, base + 1], []⟩) := by
  subst idle
  have first := tick_leaf_of_perform h base
  rcases aimed.walkToTarget_status c.arrivalRadius with h | h <;>
    simp [leg, tick_node, tickForest, Kind.start, Kind.passing, abandon, first, tick_walk, h]

theorem tick_leg_of_failure (aim : Skill α) (c : Config α) (base : Nat) (b b' : Body α)
    {pointer : Option Nat} (idle : pointer = none) (h : aim.perform b = .ok (.failure, b')) :
    tick base (leg aim c pointer) (.ok b) = ⟨.failure, leg aim c none, .ok b', [base], []⟩ := by
  subst idle
  have first := tick_leaf_of_perform h base
  simp [leg, tick_node, tickForest, Kind.start, Kind.passing, abandon, first]

theorem tick_leg_of_fault (aim : Skill α) (c : Config α) (base : Nat) (b : Body α) (fault : Fault)
    {pointer : Option Nat} (idle : pointer = none) (h : aim.perform b = .error fault) :
    tick base (leg aim c pointer) (.ok b) =
      ⟨.failure, leg aim c none, .error ⟨fault, b⟩, [base], []⟩ := by
  subst idle
  have first := tick_leaf_of_fault h base
  simp [leg, tick_node, tickForest, Kind.start, Kind.passing, abandon, first]

/-! ## The engagement -/

/-- A pursuit that was started goes on, whatever the scores are by now. -/
theorem tick_pursuit_started (c : Config α) (b : Body α) :
    tick 1 (pursuitTree c (some 1)) (.ok b) =
      (let r := { b with target := b.rival.position }.walkToTarget c.arrivalRadius
      ⟨r.1, pursuitTree c (if r.1 = .running then some 1 else none), .ok r.2, [2], []⟩) := by
  rcases { b with target := b.rival.position }.walkToTarget_status c.arrivalRadius with hr | hr <;>
    simp [pursuitTree, tick_node, tickForest, Kind.start, Kind.passing, abandon, tick_chase, hr]

theorem tick_pursuit_ahead (c : Config α) (b : Body α) (ahead : b.rival.score < b.score) :
    tick 1 (pursuitTree c none) (.ok b) =
      (let r := { b with target := b.rival.position }.walkToTarget c.arrivalRadius
      ⟨r.1, pursuitTree c (if r.1 = .running then some 1 else none), .ok r.2, [1, 2], []⟩) := by
  have question : Skill.ahead.perform b = .ok (.success, b) := by
    simp only [Skill.perform, ahead, decide_true, Status.ofBool]
  have first := tick_leaf_of_perform question 1
  rcases { b with target := b.rival.position }.walkToTarget_status c.arrivalRadius with hr | hr <;>
    simp [pursuitTree, tick_node, tickForest, Kind.start, Kind.passing, abandon, first,
      tick_chase, hr]

theorem tick_pursuit_behind (c : Config α) (b : Body α) (behind : ¬ b.rival.score < b.score) :
    tick 1 (pursuitTree c none) (.ok b) = ⟨.failure, pursuitTree c none, .ok b, [1], []⟩ := by
  have question : Skill.ahead.perform b = .ok (.failure, b) := by
    simp only [Skill.perform, behind, decide_false, Status.ofBool]
  have first := tick_leaf_of_perform question 1
  simp [pursuitTree, tick_node, tickForest, Kind.start, Kind.passing, abandon, first]

theorem tick_evasion_started (c : Config α) (b : Body α) :
    tick 3 (evasionTree c (some 2) (some 1)) (.ok b) =
      (let r := b.walkToTarget c.arrivalRadius
      ⟨r.1, evasionTree c (if r.1 = .running then some 2 else none)
        (if r.1 = .running then some 1 else none), .ok r.2, [6], []⟩) := by
  have walk := tick_leg_started .aimAtRandom c 5 b
  rcases b.walkToTarget_status c.arrivalRadius with hr | hr <;>
    simp [evasionTree, tick_node, tickForest, Kind.start, Kind.passing, abandon, walk, hr]

/-- An evasion without a started wander leg begins with a flight; it may be in one already. -/
theorem tick_evasion_running (c : Config α) (b fled : Body α) {evasion : Option Nat}
    (h : evasion = none ∨ evasion = some 0)
    (running : Skill.flee.perform b = .ok (.running, fled)) :
    tick 3 (evasionTree c evasion none) (.ok b) =
      ⟨.running, evasionTree c (some 0) none, .ok fled, [3], []⟩ := by
  have first := tick_leaf_of_perform running 3
  rcases h with rfl | rfl <;>
    simp [evasionTree, tick_node, tickForest, Kind.start, Kind.passing, abandon, first]

/-- A flight that ends too close to the rival ends the evasion. -/
theorem tick_evasion_unsettled (c : Config α) (b fled : Body α) {evasion : Option Nat}
    (h : evasion = none ∨ evasion = some 0) (escaped : Skill.flee.perform b = .ok (.success, fled))
    (near : fled.position.Within fled.rival.position c.senseRadius) :
    tick 3 (evasionTree c evasion none) (.ok b) =
      ⟨.failure, evasionTree c none none, .ok fled, [3, 4], []⟩ := by
  have first := tick_leaf_of_perform escaped 3
  have settle := tick_leaf_of_perform
    (show (Skill.settle c.senseRadius).perform fled = .ok (.failure, fled) from if_pos near) 4
  rcases h with rfl | rfl <;>
    simp [evasionTree, tick_node, tickForest, Kind.start, Kind.passing, abandon, first, settle]

theorem tick_evasion_settled (c : Config α) (b fled aimed : Body α) {evasion : Option Nat}
    (h : evasion = none ∨ evasion = some 0) (escaped : Skill.flee.perform b = .ok (.success, fled))
    (far : ¬ fled.position.Within fled.rival.position c.senseRadius)
    (aims : { fled with visual := .idle }.aimAtRandom = .ok (.success, aimed)) :
    tick 3 (evasionTree c evasion none) (.ok b) =
      (let r := aimed.walkToTarget c.arrivalRadius
      ⟨r.1, evasionTree c (if r.1 = .running then some 2 else none)
        (if r.1 = .running then some 1 else none), .ok r.2, [3, 4, 5, 6], []⟩) := by
  have first := tick_leaf_of_perform escaped 3
  have settle := tick_leaf_of_perform
    (show (Skill.settle c.senseRadius).perform fled = .ok (.success, _) from if_neg far) 4
  have walk := tick_leg .aimAtRandom c 5 _ _ rfl aims
  rcases aimed.walkToTarget_status c.arrivalRadius with hr | hr <;> rcases h with rfl | rfl <;>
    simp [evasionTree, tick_node, tickForest, Kind.start, Kind.passing, abandon, first,
      settle, walk, hr]

theorem tick_evasion_of_fault (c : Config α) (b fled : Body α) (fault : Fault)
    {evasion : Option Nat} (h : evasion = none ∨ evasion = some 0)
    (escaped : Skill.flee.perform b = .ok (.success, fled))
    (far : ¬ fled.position.Within fled.rival.position c.senseRadius)
    (aims : { fled with visual := .idle }.aimAtRandom = .error fault) :
    tick 3 (evasionTree c evasion none) (.ok b) =
      ⟨.failure, evasionTree c none none, .error ⟨fault, { fled with visual := .idle }⟩, [3, 4, 5],
        []⟩ := by
  have first := tick_leaf_of_perform escaped 3
  have settle := tick_leaf_of_perform
    (show (Skill.settle c.senseRadius).perform fled = .ok (.success, _) from if_neg far) 4
  have walk := tick_leg_of_fault .aimAtRandom c 5 _ _ rfl aims
  rcases h with rfl | rfl <;>
    simp [evasionTree, tick_node, tickForest, Kind.start, Kind.passing, abandon,
      first, settle, walk]

/-! ## From a part to the whole -/

theorem resetChild_evasion (c : Config α) (pursuit evasion detour : Option Nat) :
    resetChild 1 1 [pursuitTree c pursuit, evasionTree c evasion detour] =
      ([pursuitTree c pursuit, evasionTree c none none], [3, 4, 5, 6]) :=
  rfl

/-- A pursuit that does not fail drops an evasion that was started. -/
theorem tick_response_of_pursuit (c : Config α) (b : Body α)
    {response pursuit evasion detour : Option Nat} {status : Status} {next : Option Nat}
    {x : Except (Breakdown α) (Body α)} {visits : List Nat}
    (h : tick 1 (pursuitTree c pursuit) (.ok b) = ⟨status, pursuitTree c next, x, visits, []⟩)
    (taken : status ≠ .failure)
    (held : response = some 1 ∨
      (response = none ∨ response = some 0) ∧ evasion = none ∧ detour = none) :
    ∃ resets, tick 1 (responseTree c response pursuit evasion detour) (.ok b) =
      ⟨status, responseTree c (if status = .running then some 0 else none) next none none, x,
        visits, resets⟩ := by
  rcases held with rfl | ⟨rfl | rfl, rfl, rfl⟩ <;>
    simp [responseTree, tick_node, tickForest, Kind.start, Kind.passing, abandon, h, taken,
      resetChild_evasion]

/-- After a pursuit that fails the evasion decides. -/
theorem tick_response_of_evasion (c : Config α) (b : Body α) {response evasion detour : Option Nat}
    {status : Status} {next next' : Option Nat} {x : Except (Breakdown α) (Body α)}
    {visits : List Nat} (behind : ¬ b.rival.score < b.score) (held : ∀ j ∈ response, j ≤ 1)
    (h : tick 3 (evasionTree c evasion detour) (.ok b) =
      ⟨status, evasionTree c next next', x, visits, []⟩) :
    tick 1 (responseTree c response none evasion detour) (.ok b) =
      ⟨status, responseTree c (if status = .running then some 1 else none) none next next', x,
        1 :: visits, []⟩ := by
  have first := tick_pursuit_behind c b behind
  have width : (pursuitTree c none : Tree (Skill α)).leafCount = 2 := rfl
  have kept : ∀ ts : List (Tree (Skill α)), abandon 1 response 1 ts = (ts, []) := by
    intro ts
    cases response with
    | none => rfl
    | some j => exact if_neg (Nat.not_lt.mpr (held j rfl))
  rcases status <;>
    simp [responseTree, tick_node, tickForest, Kind.start, Kind.passing, first, width, h, kept]

theorem tick_engagement_started (c : Config α) (b : Body α)
    {response pursuit evasion detour : Option Nat} {o : Outcome (Tree (Skill α)) _}
    (h : tick 1 (responseTree c response pursuit evasion detour) (.ok b) = o) :
    tick 0 (engagementTree c (some 1) response pursuit evasion detour) (.ok b) =
      ⟨o.status, .node .sequence [.leaf (.rivalNear c.senseRadius), o.next]
        (if o.status = .running then some 1 else none), o.context, o.visits, o.resets⟩ := by
  cases status : o.status <;>
    simp [engagementTree, tick_node, tickForest, Kind.start, Kind.passing, abandon, h, status]

theorem tick_engagement_near (c : Config α) (b : Body α)
    {response pursuit evasion detour : Option Nat} {o : Outcome (Tree (Skill α)) _}
    (near : b.rival.position.Within b.position c.senseRadius)
    (h : tick 1 (responseTree c response pursuit evasion detour) (.ok b) = o) :
    tick 0 (engagementTree c none response pursuit evasion detour) (.ok b) =
      ⟨o.status, .node .sequence [.leaf (.rivalNear c.senseRadius), o.next]
        (if o.status = .running then some 1 else none), o.context, 0 :: o.visits, o.resets⟩ := by
  have question : (Skill.rivalNear c.senseRadius).perform b = .ok (.success, b) := by
    simp only [Skill.perform, near, decide_true, Status.ofBool]
  have first := tick_leaf_of_perform question 0
  cases status : o.status <;>
    simp [engagementTree, tick_node, tickForest, Kind.start, Kind.passing, abandon,
      first, h, status]

theorem tick_engagement_far (c : Config α) (b : Body α)
    {response pursuit evasion detour : Option Nat}
    (far : ¬ b.rival.position.Within b.position c.senseRadius) :
    tick 0 (engagementTree c none response pursuit evasion detour) (.ok b) =
      ⟨.failure, engagementTree c none response pursuit evasion detour, .ok b, [0], []⟩ := by
  have question : (Skill.rivalNear c.senseRadius).perform b = .ok (.failure, b) := by
    simp only [Skill.perform, far, decide_false, Status.ofBool]
  have first := tick_leaf_of_perform question 0
  simp [engagementTree, tick_node, tickForest, Kind.start, Kind.passing, abandon, first]

end Pointers

end ArenaAgent
