import ArenaAgent.Proofs.Agent.Aim
import ArenaAgent.Proofs.Agent.Containment
import ArenaAgent.Proofs.Agent.Gait
import ArenaAgent.Proofs.Binary64.Compass

/-!
Updates in which no time passes. They leave an agent where it is, with two exceptions: a flight
first moves it into its flee region, and a walk puts it on a goal that is at no distance from it
(`position_without_time`).
-/
namespace ArenaAgent

open Scalar

variable {α : Type} [Scalar α]

/-! ## Speed -/

theorem Acted.speed {b b' : Body α} {acts : List (Act α)} (h : Acted b acts b') :
    b'.speed = b.speed :=
  h.keeps fun done => (Skill.perform_spared done).speed

namespace Agent

theorem speed_operate {a a' : Agent α} {o : Operation α} (done : a.operate o = .ok a') :
    a'.body.speed = a.body.speed := by
  obtain ⟨b, b', before, acted, after⟩ := acted_operate done
  exact after.speed.trans (acted.speed.trans before.speed)

/-- The speed of an agent is always that of its configuration. -/
theorem speed_live {spec : AgentSpec α} {entropy : Rng} {a₀ a : Agent α} {os : List (Operation α)}
    (built : spec.build entropy = .ok a₀) (lived : a₀.live os = .ok a) :
    a.body.speed = spec.config.speed := by
  have born : a₀.body.speed = spec.config.speed := by
    obtain ⟨position, rng, frame, made⟩ := AgentSpec.build_made built
    rw [made]
    rfl
  exact live_keeps (P := fun a => a.body.speed = spec.config.speed)
    (fun _ _ _ same done => (speed_operate done).trans same) born lived

end Agent

/-! ## Steps of no length -/

theorem Body.Spared.stride {k : Skill α} {b b' : Body α} (h : Body.Spared k b b') :
    b'.stride = b.stride := by
  rw [Body.stride, Body.stride, h.speed, h.elapsed]

/-- A body in its arena whose stride has no length. -/
structure Body.Still (c : Config α) (b : Body α) : Prop where
  config : b.config = c
  arena : b.position ∈ c.arena
  stride : Scalar.Same b.stride 0.0

namespace Body.Still

variable {c : Config α} {b : Body α}

/-- What is no walk leaves the body where it is, with the same stride. -/
theorem perform (h : b.Still c) {k : Skill α} (idle : ¬ k.Walks) {b' : Body α} {status : Status}
    (done : k.perform b = .ok (status, b')) : b'.Still c ∧ b'.position = b.position := by
  have frame := Skill.perform_frame done
  have stride := (Skill.perform_spared done).stride
  exact ⟨⟨frame.config.trans h.config, frame.position idle ▸ h.arena, stride ▸ h.stride⟩,
    frame.position idle⟩

variable [Lawful α] [Measures α] [Angles α] (checked : c.check = .ok ()) {goal : Point α}
  (finite : goal.IsFinite)

include checked finite

/-- A walk without time goes nowhere, unless its goal is at no distance. -/
theorem walk (h : b.Still c) :
    (b.stepTo goal).Same b.position ∨ b.position.dist goal ≤ 0.0 ∧
      b.stepTo goal = c.arena.clamp goal := by
  have here := Config.finite_of_mem_arena checked h.arena
  by_cases arrives : b.position.dist goal ≤ b.stride
  · refine .inr ⟨le_trans arrives h.stride.1, ?_⟩
    rw [Body.stepTo, if_pos arrives, h.config]
  · have away : 0.0 < b.position.dist goal :=
      lt_iff.mpr ⟨Point.dist_nonneg here finite, fun none => arrives (le_trans none h.stride.2)⟩
    have heading : b.headingTo goal = b.position.bearing goal := if_pos away
    have step := Point.polar_same here (Point.bearing_finite here finite).1 h.stride
    left
    rw [Body.stepTo, if_neg arrives, heading, h.config]
    exact (Rect.clamp_congr step).trans (Rect.clamp_of_mem h.arena)

/-- A flight without time goes no farther than into the flee region. -/
theorem flee (h : b.Still c) : (b.stepFrom goal).Same (c.fleeRegion.clamp b.position) := by
  have here := Config.finite_of_mem_arena checked h.arena
  rw [Body.stepFrom, h.config]
  exact Rect.clamp_congr (Point.polar_same here (Point.bearing_finite here finite).2 h.stride)

end Body.Still

/-- Where a body ends up from this footing: there, or on its target, if that is at no distance. -/
def Body.Stays (c : Config α) (footing : Point α) (b : Body α) : Prop :=
  b.position.Same footing ∨ footing.dist b.target ≤ 0.0 ∧ b.position.Same (c.arena.clamp b.target)

theorem Body.Stays.of_same [Lawful α] [ZerosAlike α] {c : Config α} {p q : Point α} {b : Body α}
    (h : b.Stays c p) (same : p.Same q) : b.Stays c q := by
  cases h with
  | inl stays => exact .inl (stays.trans same)
  | inr lands => exact .inr ⟨same.dist_eq b.target ▸ lands.1, lands.2⟩

/-! ## Moves -/

namespace Mode

variable {c : Config α} {m : Mode} {b : Body α} {drawn : Option (Point α)} {seen : Rival α}
  [Lawful α] [Measures α] (checked : c.check = .ok ())

include checked

/-- A leg that goes on has a finite target. -/
theorem finite_target (aims : Aims c m b drawn seen)
    (leg : m = .patrol ∨ m = .wander ∨ m = .evadeWander) : b.target.IsFinite := by
  have roomy := Config.roomy_of_check checked
  apply Config.finite_of_mem_arena checked
  rcases leg with rfl | rfl | rfl
  · obtain ⟨-, -, -, -, stops⟩ :=
      (Config.defect?_eq_none_iff c).mp (Config.check_eq_ok_iff c |>.mp checked)
    exact stops _ (List.mem_of_getElem? aims.2)
  · exact roomy.wander_sub _ aims.1
  · exact roomy.wander_sub _ aims.1

variable [Angles α]

theorem stays_walk (still : b.Still c) (finite : b.target.IsFinite) (arrival : α) :
    (b.walkToTarget arrival).2.Stays c b.position := by
  cases still.walk checked finite with
  | inl stays => exact .inl stays
  | inr lands =>
    have inside := Rect.clamp_mem (Config.roomy_of_check checked).arena b.target
    refine .inr ⟨lands.1, ?_⟩
    have landed : (b.walkToTarget arrival).2.position = c.arena.clamp b.target := lands.2
    rw [landed]
    exact (Config.finite_of_mem_arena checked inside).same

theorem stays_strolls (equipped : b.Equipped c) (still : b.Still c) (aims : Aims c m b drawn seen)
    {ds : List Nat} {mv : Move Mode α} (goes : Strolls m c ds b mv) :
    mv.body.Stays c b.position := by
  cases goes with
  | patrol going =>
    exact stays_walk checked still (finite_target checked aims (.inl going)) c.arrivalRadius
  | nextStop other stops =>
    have own : Aims c .patrol b.aimAtNextStop.2 drawn seen := aims_aimAtNextStop equipped stops
    have performed : Skill.aimAtNextStop.perform b = .ok (b.aimAtNextStop.1, b.aimAtNextStop.2) :=
      rfl
    obtain ⟨still', same⟩ := still.perform (k := .aimAtNextStop) not_false performed
    rw [← same]
    exact stays_walk checked still' (finite_target checked own (.inl rfl)) c.arrivalRadius
  | wander going stops =>
    exact stays_walk checked still (finite_target checked aims (.inr (.inl going))) c.arrivalRadius
  | @random other stops status aimed took =>
    have own : Aims c .wander aimed (some aimed.target) seen :=
      ⟨(aims_aimAtRandom equipped took).1, rfl⟩
    obtain ⟨still', same⟩ := still.perform (k := .aimAtRandom) not_false took
    rw [← same]
    exact stays_walk checked still' (finite_target checked own (.inr (.inl rfl))) c.arrivalRadius

omit [Lawful α] [Measures α] [Angles α] checked in
theorem position_fleeing (b : Body α) : (fleeing b).2.position = b.stepFrom b.rival.position := by
  simp only [fleeing]
  split <;> rfl

/-- A flight without time goes into the flee region and no farther. -/
theorem still_fleeing (still : b.Still c) (finite : b.rival.position.IsFinite) :
    (fleeing b).2.Still c ∧ (fleeing b).2.position.Same (c.fleeRegion.clamp b.position) := by
  have roomy := Config.roomy_of_check checked
  have performed : Skill.flee.perform b = .ok ((fleeing b).1, (fleeing b).2) := rfl
  have stride := (Skill.perform_spared performed).stride
  have inside := Skill.perform_flee_mem (still.config ▸ roomy) performed
  rw [still.config] at inside
  refine ⟨⟨(Skill.perform_frame performed).config.trans still.config, roomy.flee_sub _ inside, ?_⟩,
    ?_⟩
  · exact stride ▸ still.stride
  · rw [position_fleeing]
    exact still.flee checked finite

omit [Lawful α] [Measures α] [Angles α] checked in
/-- Where a step without time begins: a flight first takes the body into its flee region. -/
def footing (m : Mode) (c : Config α) (b : Body α) : Point α :=
  if m.Flees c b then c.fleeRegion.clamp b.position else b.position

theorem stays_step [ZerosAlike α] (equipped : b.Equipped c) (still : b.Still c)
    (aims : Aims c m b drawn seen) (finite : b.rival.position.IsFinite) {mv : Move Mode α}
    (steps : Steps m c b mv) : mv.body.Stays c (m.footing c b) := by
  obtain ⟨still', landed⟩ := still_fleeing checked still finite
  have fled := equipped_fleeing equipped
  cases steps with
  | chase start decided =>
    rw [footing, if_neg fun flees => flees.2.1 decided]
    have chasing : { b with target := b.rival.position }.Still c :=
      ⟨still.config, still.arena, still.stride⟩
    exact stays_walk checked chasing finite c.arrivalRadius
  | leave going behind =>
    rw [footing, if_neg fun flees => flees.2.2 going]
    exact stays_walk checked still (finite_target checked aims (.inr (.inr going))) c.arrivalRadius
  | flee flees running =>
    rw [footing, if_pos flees]
    exact .inl landed
  | unsettled flees escaped near goes =>
    rw [footing, if_pos flees]
    obtain ⟨target, patrol, -⟩ := fleeing_spared b
    exact (stays_strolls checked fled still' (aims.of_eq target patrol) goes).of_same landed
  | @settled flees escaped far status aimed took =>
    rw [footing, if_pos flees]
    have idle : { (fleeing b).2 with visual := .idle }.Equipped c := fled.of_eq rfl rfl
    have resting : { (fleeing b).2 with visual := .idle }.Still c :=
      ⟨still'.config, still'.arena, still'.stride⟩
    have own : Aims c .evadeWander aimed (some aimed.target) seen :=
      ⟨(aims_aimAtRandom idle took).1, rfl⟩
    obtain ⟨aiming, same⟩ := resting.perform (k := .aimAtRandom) not_false took
    have walked :=
      stays_walk checked aiming (finite_target checked own (.inr (.inr rfl))) c.arrivalRadius
    rw [same] at walked
    exact walked.of_same landed
  | stroll free goes =>
    rw [footing, if_neg fun flees => free flees.1]
    exact stays_strolls checked equipped still aims goes

omit [Measures α] [Angles α] checked in
/-- A flight that nowhere gets out of the reach of the rival ends in the flee region. -/
theorem position_mem_of_flees (roomy : c.Roomy) (equipped : b.Equipped c) (flees : m.Flees c b)
    (near : ∀ p ∈ c.fleeRegion, p.Within b.rival.position c.fleeRadius) {mv : Move Mode α}
    (steps : Steps m c b mv) : mv.body.position ∈ c.fleeRegion := by
  have performed : Skill.flee.perform b = .ok ((fleeing b).1, (fleeing b).2) := rfl
  have inside := Skill.perform_flee_mem (equipped.config ▸ roomy) performed
  rw [equipped.config] at inside
  have within := near _ inside
  rw [position_fleeing, ← equipped.config] at within
  have running : (fleeing b).1 = .running := if_pos within
  cases steps with
  | chase start decided => exact absurd decided flees.2.1
  | leave going behind => exact absurd going flees.2.2
  | flee => exact inside
  | unsettled _ escaped | settled _ escaped => cases running.symm.trans escaped
  | stroll free goes => exact absurd flees.1 free

end Mode

namespace Agent

section

variable [Lawful α] [Measures α] {spec : AgentSpec α} {entropy : Rng} {a₀ a : Agent α}
  {os : List (Operation α)} (built : spec.build entropy = .ok a₀) (lived : a₀.live os = .ok a)
  (speed : isFinite spec.config.speed = true)

include built lived speed

/-- What an agent perceives as no time gives it no stride. -/
theorem still_perceived (rival : Rival α) {elapsed : α}
    (timeless : ¬ (isFinite elapsed = true ∧ 0.0 < elapsed)) :
    (a.perceived rival elapsed).Still spec.config := by
  obtain ⟨roomy, born⟩ := placed_build built
  have placed := placed_live roomy born lived
  refine ⟨placed.config, placed.arena, ?_⟩
  show Same (a.body.speed * passing elapsed) 0.0
  rw [speed_live built lived, passing, if_neg timeless]
  exact Measures.mul_zero speed

/-- An update in which no time passes leaves the agent where it is, but a flight first takes it into
its flee region, and a walk puts it on a goal at no distance. In its flee region an agent that flees
stays where it is. -/
theorem position_without_time [ZerosAlike α] [Angles α] {rival : Rival α}
    (finite : rival.position.IsFinite) {elapsed : α}
    (timeless : ¬ (isFinite elapsed = true ∧ 0.0 < elapsed)) {a' : Agent α}
    (updated : a.update rival elapsed = .ok a') :
    let footing :=
      if a.Flees rival elapsed then spec.config.fleeRegion.clamp a.body.position
      else a.body.position
    (a'.body.position.Same footing ∨
        footing.dist a'.body.target ≤ 0.0 ∧
          a'.body.position.Same (spec.config.arena.clamp a'.body.target)) ∧
      (a.body.position ∈ spec.config.fleeRegion → footing.Same a.body.position) := by
  intro footing
  have checked := (AgentSpec.build_ok built).1
  have still := still_perceived built lived speed rival timeless
  obtain ⟨m, mode, aims⟩ :=
    history_keeps (P := Headed spec.config) (fun _ _ _ _ h done => headed_operate h done)
      (headed_build built) lived
  have equipped : (a.perceived rival elapsed).Equipped spec.config := mode.equipped.of_eq rfl rfl
  have perceives : Aims spec.config m (a.perceived rival elapsed)
      (draws ([] ++ a₀.history os)).getLast? a.body.rival :=
    aims.of_eq rfl rfl
  obtain ⟨mv, stepped, moved⟩ := mode.update_ok updated
  have stays := Mode.stays_step checked equipped still perceives finite (Mode.steps_of_ok stepped)
  have same : m.footing spec.config (a.perceived rival elapsed) = footing :=
    if_congr (mode.flees_iff rival elapsed).symm rfl rfl
  rw [same] at stays
  refine ⟨?_, fun inside => ?_⟩
  · rw [moved.samePlace.position, moved.samePlans.target]
    exact stays
  · by_cases flees : a.Flees rival elapsed
    · simp only [footing, if_pos flees]
      exact Rect.clamp_of_mem inside
    · simp only [footing, if_neg flees]
      exact (Config.finite_of_mem_arena checked still.arena).same

end

/-- An agent on one height with its rival, in the middle of its arena. -/
def levelSpec : AgentSpec Binary64.Compass :=
  ⟨.shipped, some ⟨600.0, 500.0⟩, some 7⟩

def levelRival : Rival Binary64.Compass :=
  ⟨⟨650.0, 500.0⟩, 0⟩

/-- A flight of no time at all, which goes nowhere. -/
theorem flight_without_time :
    ∃ a₀ a a', levelSpec.build 0 = .ok a₀ ∧ a₀.live [.update levelRival 1.0] = .ok a ∧
      a.Flees levelRival (0.0 / 0.0) ∧ a.update levelRival (0.0 / 0.0) = .ok a' ∧
        a'.body.position.Same a.body.position := by
  obtain ⟨a₀, a, built, lived, flees, inside, goes⟩ :=
    exists_life levelSpec 0 [.update levelRival 1.0]
      (P := fun a => a.Flees levelRival (0.0 / 0.0) ∧
        a.body.position ∈ levelSpec.config.fleeRegion ∧
        (a.update levelRival (0.0 / 0.0)).toOption.any (fun a' =>
          ¬ a.body.position.dist a'.body.target ≤ 0.0) = true)
      (by decide +kernel)
  obtain ⟨a', updated, apart⟩ := any_toOption_iff.mp goes
  obtain ⟨stays, room⟩ := position_without_time built lived (by decide +kernel)
    (by decide +kernel) (by decide +kernel) updated
  have same := room inside
  refine ⟨a₀, a, a', built, lived, flees, updated, ?_⟩
  cases stays with
  | inl stays => exact stays.trans same
  | inr lands =>
    rw [same.dist_eq] at lands
    exact absurd lands.1 (of_decide_eq_true apart)

/-! ## Agents that move all the same

One is taken into its flee region, one is put on its goal, and the speed of one is beyond all
bounds. Sines and cosines are not computed for the first one: its flee region is a single point.
-/

/-- An update in which the agent flees, from a rival that has the whole flee region in its reach,
ends in this region. -/
theorem InMode.position_mem_of_flees [Lawful α] {c : Config α} {m : Mode} {a a' : Agent α}
    (mode : a.InMode c m) (roomy : c.Roomy) {rival : Rival α} {elapsed : α}
    (flees : a.Flees rival elapsed)
    (near : ∀ p ∈ c.fleeRegion, p.Within rival.position c.fleeRadius)
    (updated : a.update rival elapsed = .ok a') :
    a'.body.position ∈ c.fleeRegion := by
  obtain ⟨mv, stepped, moved⟩ := mode.update_ok updated
  have equipped : (a.perceived rival elapsed).Equipped c := mode.equipped.of_eq rfl rfl
  rw [moved.samePlace.position]
  exact Mode.position_mem_of_flees roomy equipped ((mode.flees_iff rival elapsed).mp flees) near
    (Mode.steps_of_ok stepped)

/-- This update moves a newborn agent, although no time passes in it. -/
def MovesAtOnce (spec : AgentSpec Float) (rival : Rival Float) : Prop :=
  ∃ a₀ a, spec.build 0 = .ok a₀ ∧ a₀.update rival 0.0 = .ok a ∧
    ¬ a.body.position.Same a₀.body.position

/-- Such an update that can be computed. -/
theorem MovesAtOnce.of_computed {spec : AgentSpec Float} {rival : Rival Float}
    (h : ((spec.build 0).toOption.any fun a₀ => (a₀.update rival 0.0).toOption.any fun a =>
      ¬ a.body.position.Same a₀.body.position) = true) : MovesAtOnce spec rival := by
  obtain ⟨a₀, built, h⟩ := any_toOption_iff.mp h
  obtain ⟨a, updated, moves⟩ := any_toOption_iff.mp h
  exact ⟨a₀, a, built, updated, of_decide_eq_true moves⟩

/-- An agent whose flee region is a single point, and not the one where it stands. -/
def corneredSpec : AgentSpec Float :=
  ⟨{ Config.shipped with
      arenaWidth := 1024.0, arenaHeight := 1024.0, fleeMargin := 512.0, stops := [] },
    some ⟨500.0, 512.0⟩, some 7⟩

def corneringRival : Rival Float :=
  ⟨⟨560.0, 512.0⟩, 0⟩

theorem eq_of_mem_cornered {p : Point Float} (h : p ∈ corneredSpec.config.fleeRegion) :
    p = ⟨512.0, 512.0⟩ := by
  have left : corneredSpec.config.fleeRegion.min = ⟨512.0, 512.0⟩ := by decide +kernel
  have right : corneredSpec.config.fleeRegion.max = ⟨512.0, 512.0⟩ := by decide +kernel
  obtain ⟨⟨x₁, x₂⟩, y₁, y₂⟩ := h
  rw [left] at x₁ y₁
  rw [right] at x₂ y₂
  have positive : (0.0 : Float) < 512.0 := by decide +kernel
  obtain ⟨x, y⟩ := p
  cases Same.eq_of_pos ⟨x₁, x₂⟩ positive
  cases Same.eq_of_pos ⟨y₁, y₂⟩ positive
  rfl

theorem cornered_moves : MovesAtOnce corneredSpec corneringRival := by
  obtain ⟨a₀, _, built, lived, stands, near, behind⟩ := exists_life corneredSpec 0 []
    (P := fun a => a.body.position = ⟨500.0, 512.0⟩ ∧
      corneringRival.position.Within a.body.position corneredSpec.config.senseRadius ∧
        ¬ corneringRival.score < a.body.score)
    (by decide +kernel)
  cases lived
  have mode := inMode_clean_build built
  have flees : a₀.Flees corneringRival 0.0 :=
    (mode.flees_iff corneringRival 0.0).mpr
      ⟨.inr near, fun decided => decided.elim nofun behind, nofun⟩
  have reach : ∀ p ∈ corneredSpec.config.fleeRegion,
      p.Within corneringRival.position corneredSpec.config.fleeRadius := by
    intro p inside
    rw [eq_of_mem_cornered inside]
    decide +kernel
  cases updated : a₀.update corneringRival 0.0 with
  | error e =>
    have drawable : corneredSpec.config.wanderRegion.fault? = none := by decide +kernel
    cases drawable.symm.trans (mode.fault_update updated)
  | ok a =>
    have landed := mode.position_mem_of_flees (placed_build built).1 flees reach updated
    refine ⟨a₀, a, built, updated, ?_⟩
    rw [eq_of_mem_cornered landed, stands]
    decide +kernel

/-- An agent next to its first stop, nearer than squares of distances can tell. -/
def doorstepSpec : AgentSpec Float :=
  ⟨{ Config.shipped with stops := [⟨1.0e-200, 0.0⟩] }, some ⟨0.0, 0.0⟩, some 7⟩

/-- An agent whose speed is finite in kilometres per hour, but not in pixels per second. -/
def boundlessSpec : AgentSpec Float :=
  ⟨{ Config.shipped with runSpeed := 1.8e305 }, some ⟨100.0, 100.0⟩, some 7⟩

theorem moves_without_time :
    MovesAtOnce corneredSpec corneringRival ∧ MovesAtOnce doorstepSpec leadingRival ∧
      MovesAtOnce boundlessSpec leadingRival :=
  ⟨cornered_moves, .of_computed (by decide +kernel), .of_computed (by decide +kernel)⟩

end Agent

end ArenaAgent
