import ArenaAgent.Proofs.Agent.Aim
import ArenaAgent.Proofs.Agent.Patrolling
import ArenaAgent.Proofs.Binary64.Products

/-!
An engagement comes before everything else. With a flee radius that is no smaller than the sense
radius a flight ends out of sight of the rival, so an engagement that started does not fail, and the
legs behind it have to wait (`engagement_comes_first`).
-/
namespace ArenaAgent

variable {α : Type}

def Skill.Settles : Skill α → Prop
  | .settle _ => True
  | _ => False

variable [Scalar α]

namespace Mode

open ArenaAgent.Tree Pointers

/-- An agent that escaped does not find its rival near all the same. -/
def Clear (c : Config α) (b : Body α) : Prop :=
  (fleeing b).1 = .success →
    ¬ (fleeing b).2.position.Within (fleeing b).2.rival.position c.senseRadius

/-- What comes of an engagement, or of the response in it: it does not fail, and it settles at most
once, right after the escape. -/
structure Lasts (b : Body α) (o : Outcome (Tree (Skill α)) (Except (Breakdown α) (Body α))) :
    Prop where
  taken : ∀ b', o.context = .ok b' → o.status ≠ .failure
  settled : 4 ∈ deeds o.visits →
    (fleeing b).1 = .success ∧ ∃ later, deeds o.visits = 3 :: 4 :: later ∧ 4 ∉ later

variable (m : Mode) (c : Config α) {b : Body α}

/-- An agent that flees, and is clear of its rival if it escapes. -/
theorem lasts_flight (clear : Clear c b) (chasing : m ≠ .chase) (leaving : m ≠ .evadeWander)
    (behind : ¬ b.rival.score < b.score) : Lasts b (tick 1 (m.responseTree c) (.ok b)) := by
  have flight := response_of_fleeing m c b chasing leaving behind
  generalize tick 1 (m.responseTree c) (.ok b) = o at flight
  cases flight with
  | running running => exact ⟨nofun, fun settles => absurd (show 4 ∈ [3] from settles) (by decide)⟩
  | unsettled escaped near => exact absurd near (clear escaped)
  | @settled escaped far aimed aims =>
    exact ⟨fun _ _ => aimed.walkToTarget_ne_failure _, fun _ => ⟨escaped, [5, 6], rfl, by decide⟩⟩
  | broken escaped far fails => exact ⟨nofun, fun _ => ⟨escaped, [5], rfl, by decide⟩⟩

theorem lasts_response (clear : Clear c b) : Lasts b (tick 1 (m.responseTree c) (.ok b)) := by
  by_cases decided : m = .chase ∨ b.rival.score < b.score
  · obtain ⟨visits, resets, response, done⟩ := response_of_decided m c b decided
    rw [response]
    refine ⟨fun _ _ => Body.walkToTarget_ne_failure _ _, fun settles => ?_⟩
    rw [done] at settles
    exact absurd settles (by decide)
  · have behind : ¬ b.rival.score < b.score := fun ahead => decided (.inr ahead)
    by_cases leaving : m = .evadeWander
    · subst leaving
      rw [response_of_leaving c b behind]
      exact ⟨fun _ _ => b.walkToTarget_ne_failure _, fun settles =>
        absurd (show 4 ∈ [6] from settles) (by decide)⟩
    · exact m.lasts_flight c clear (fun chasing => decided (.inl chasing)) leaving behind

theorem lasts_engagement (start : m.Engaged ∨ b.rival.position.Within b.position c.senseRadius)
    (clear : Clear c b) : Lasts b (tick 0 (m.engagementTree c) (.ok b)) := by
  obtain ⟨taken, settled⟩ := m.lasts_response c clear
  obtain ⟨visits, engaged, same⟩ := tick_engagementTree m c start rfl
  rw [engaged]
  refine ⟨taken, ?_⟩
  rw [same]
  exact settled

omit [Scalar α] in
theorem settles_leaf_iff (i : Nat) : (∃ k ∈ (m.tree c).leaves[i]?, k.Settles) ↔ i = 4 := by
  rw [leaves_tree]
  obtain _ | _ | _ | _ | _ | _ | _ | _ | _ | _ | _ | i := i <;> simp [Skill.Settles]

/-- An agent that is to settle does so. -/
theorem settle_succeeds (clear : Clear c b)
    (lasts : Lasts b (tick 0 (m.engagementTree c) (.ok b))) {x : Act α}
    (mem : x ∈ m.engagementActs c b) (settles : x.skill.Settles) :
    ∃ b', x.result = .ok (.success, b') := by
  have leaf : x.leaf = 4 :=
    (m.settles_leaf_iff c x.leaf).mp ⟨x.skill, (leaf_of_mem_acts mem).2, settles⟩
  -- Only the deeds count, and the first two of them are the flight and the settling.
  have deed : x ∈ (m.engagementActs c b).filter (1 < ·.leaf) :=
    List.mem_filter.mpr ⟨mem, by simp [leaf]⟩
  rw [engagementActs, acts_deeds] at deed
  have visited := (leaf_of_mem_acts deed).1
  rw [leaf] at visited
  obtain ⟨escaped, later, visits, once⟩ := lasts.settled visited
  have flee : Skill.flee.perform b = .ok ((fleeing b).1, (fleeing b).2) := rfl
  have settle : (Skill.settle c.senseRadius).perform (fleeing b).2 =
      .ok (.success, { (fleeing b).2 with visual := .idle }) := if_neg (clear escaped)
  rw [visits, acts_of_perform rfl flee, acts_of_perform rfl settle] at deed
  cases List.mem_cons.mp deed with
  | inl first =>
    rw [first] at leaf
    cases leaf
  | inr rest =>
    cases List.mem_cons.mp rest with
    | inl second =>
      rw [second]
      exact ⟨_, rfl⟩
    | inr others => exact absurd (leaf ▸ (leaf_of_mem_acts others).1) once

end Mode

namespace Agent

open ArenaAgent.Tree

section InMode

variable {c : Config α} {m : Mode} {a : Agent α} (h : a.InMode c m) (rival : Rival α) (elapsed : α)

include h

theorem InMode.clear [Scalar.Lawful α] [Scalar.OrderedProducts α] (checked : c.check = .ok ())
    (radii : c.senseRadius ≤ c.fleeRadius) : Mode.Clear c (a.perceived rival elapsed) := by
  have config : (a.perceived rival elapsed).config = c := h.equipped.config
  generalize a.perceived rival elapsed = b at config
  intro escaped
  apply Config.not_within_senseRadius checked radii
  intro near
  have threat : (Mode.fleeing b).2.position.Within b.rival.position b.config.fleeRadius := by
    rw [config, ← (Mode.fleeing_spared b).2.2]
    exact near
  have place : (Mode.fleeing b).2.position = b.stepFrom b.rival.position := by
    simp only [Mode.fleeing]
    split <;> rfl
  rw [place] at threat
  have running : (Mode.fleeing b).1 = .running := if_pos threat
  cases running.symm.trans escaped

variable (clear : Mode.Clear c (a.perceived rival elapsed))
  (start : m.Engaged ∨ rival.position.Within a.body.position c.senseRadius)

include clear start

theorem InMode.engaged : a.engagementAnswer rival elapsed ≠ some .failure := by
  intro failed
  obtain ⟨b, ended, failed⟩ := (h.engagementAnswer_eq_some_iff rival elapsed .failure).mp failed
  exact (m.lasts_engagement c start clear).taken b ended failed

/-- The acts of an update with an engagement that lasts. -/
theorem InMode.mem_engaged {x : Act α} (mem : x ∈ a.acts rival elapsed) :
    x.leaf < (Mind.engagement c).leafCount ∧
      (x.skill.Settles → ∃ b, x.result = .ok (.success, b)) := by
  rw [h.acts_of_engaged rival elapsed (h.engaged rival elapsed clear start)] at mem
  exact ⟨(m.leaf_of_mem_engagementActs c mem).1,
    m.settle_succeeds c clear (m.lasts_engagement c start clear) mem⟩

theorem InMode.stays : departures (a.acts rival elapsed) = [] := by
  rw [h.acts_of_engaged rival elapsed (h.engaged rival elapsed clear start)]
  exact m.departures_engagement c _

end InMode

/-- An engagement that applies, because the rival is near or because it was left running, comes
before everything else: it does not fail, the legs do nothing in the update, and none of them
is left running. -/
theorem engagement_comes_first [Scalar.Lawful α] [Scalar.OrderedProducts α] {spec : AgentSpec α}
    {entropy : Rng} {a₀ a : Agent α} {os : List (Operation α)} (built : spec.build entropy = .ok a₀)
    (lived : a₀.live os = .ok a) (radii : spec.config.senseRadius ≤ spec.config.fleeRadius)
    {rival : Rival α}
    (applies : (∃ m, m.Engaged ∧ a.LeftRunning m) ∨
      rival.position.Within a.body.position spec.config.senseRadius)
    (elapsed : α) :
    a.engagementAnswer rival elapsed ≠ some .failure ∧
      (∀ x ∈ a.acts rival elapsed, x.leaf < (Mind.engagement spec.config).leafCount ∧
        (x.skill.Settles → ∃ b, x.result = .ok (.success, b))) ∧
      match a.update rival elapsed with
      | .ok a' =>
        a'.answer = a.engagementAnswer rival elapsed ∧ a'.body.patrol = a.body.patrol ∧
          AllIdle a'.mind.tree.branches.tail
      | .error e => e.body.patrol = a.body.patrol := by
  obtain ⟨m, mode⟩ := inMode_live (inMode_build built) lived
  have checked := (AgentSpec.build_ok built).1
  have clear := mode.clear rival elapsed checked radii
  have start : m.Engaged ∨ rival.position.Within a.body.position spec.config.senseRadius := by
    refine applies.imp_left fun engaged => ?_
    obtain ⟨n, engaged, running⟩ := engaged
    exact (mode.leftRunning_iff n).mp running ▸ engaged
  have engaged := mode.engaged rival elapsed clear start
  have stays := mode.stays rival elapsed clear start
  refine ⟨engaged, fun x mem => mode.mem_engaged rival elapsed clear start mem, ?_⟩
  cases updated : a.update rival elapsed with
  | ok a' =>
    obtain ⟨answer, idle⟩ := mode.update_of_engaged rival elapsed engaged updated
    obtain ⟨b, b', before, acted, after⟩ := acted_operate (o := .update rival elapsed) updated
    exact ⟨answer, after.patrol.trans ((acted.patrol stays).trans before.patrol), idle⟩
  | error e =>
    obtain ⟨b, before, acted⟩ := acted_operate_of_error (o := .update rival elapsed) updated
    exact (acted.patrol stays).trans before.patrol

/-- A rival that comes near interrupts a leg of the patrol. -/
theorem interrupted_leg :
    ∃ a₀ a a', (restlessSpec Config.shippedStops).build 0 = .ok a₀ ∧
      a₀.live [.collide scoringGroup, .update goneRival 60.0] = .ok a ∧ a.LeftRunning .patrol ∧
        a.update goneRival 60.0 = .ok a' ∧ a'.body.patrol.index = 1 ∧
          AllIdle a'.mind.tree.branches.tail := by
  obtain ⟨a₀, a, built, lived, going, turn, near, ends⟩ :=
    exists_life (restlessSpec Config.shippedStops) 0
      [.collide scoringGroup, .update goneRival 60.0]
      (P := fun a => a.LeftRunning .patrol ∧ a.body.patrol.index = 1 ∧
        goneRival.position.Within a.body.position
          (restlessSpec Config.shippedStops).config.senseRadius ∧
          (a.update goneRival 60.0).toOption.any (fun _ => true) = true) (by decide +kernel)
  obtain ⟨a', updated, -⟩ := any_toOption_iff.mp ends
  obtain ⟨-, -, after⟩ := engagement_comes_first built lived (by decide +kernel) (.inr near) 60.0
  rw [updated] at after
  obtain ⟨-, patrol, idle⟩ := after
  exact ⟨a₀, a, a', built, lived, going, updated, patrol ▸ turn, idle⟩

end Agent

end ArenaAgent
