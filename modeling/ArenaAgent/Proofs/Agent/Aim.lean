import ArenaAgent.Proofs.Agent.Acts
import ArenaAgent.Proofs.Agent.Engagement
import ArenaAgent.Proofs.Arena.Regions
import ArenaAgent.Proofs.Binary64.Lawful

/-!
What an agent heads for. All walks share one target, and what an agent is in the middle of
tells where its target comes from (`target_of_mode`): no skill takes a target on behalf of a
walk that goes on.
-/
namespace ArenaAgent

variable {α : Type}

/-! ## Random targets -/

/-- The random targets that were drawn. -/
def draws (acts : List (Act α)) : List (Point α) :=
  (acts.filter (·.skill.Draws)).filterMap Act.aim?

theorem draws_append (xs ys : List (Act α)) : draws (xs ++ ys) = draws xs ++ draws ys := by
  rw [draws, List.filter_append, List.filterMap_append]
  rfl

theorem draws_of_not_draws {x : Act α} (other : ¬ x.skill.Draws) (xs : List (Act α)) :
    draws (x :: xs) = draws xs := by
  rw [draws, List.filter_cons_of_neg (by simpa using other)]
  rfl

def Event.randomTarget? : Event α → Option (Point α)
  | .randomTarget target => some target
  | _ => none

def Body.randomTargets (b : Body α) : List (Point α) :=
  b.notes Event.randomTarget?

variable [Scalar α]

theorem Skill.perform_randomTargets {k : Skill α} {b b' : Body α} {status : Status}
    (h : k.perform b = .ok (status, b')) :
    b'.randomTargets = b.randomTargets ++ if k.Draws then [b'.target] else [] :=
  Skill.perform_notes (f := Event.randomTarget?) (fun _ _ => rfl) (fun _ => rfl) h

/-- The journal tells which random targets were drawn. -/
theorem Acted.randomTargets {b b' : Body α} {acts : List (Act α)} (h : Acted b acts b') :
    b'.randomTargets = b.randomTargets ++ draws acts := by
  induction h with
  | nil => exact (List.append_nil _).symm
  | @cons b b₁ b' leaf k status acts done rest ih =>
    rw [ih, Skill.perform_randomTargets done, List.append_assoc]
    by_cases random : k.Draws
    · cases k with
      | aimAtRandom =>
        obtain ⟨target, rng, -, success, same⟩ := Body.aimAtRandom_ok done
        subst success same
        rfl
      | _ => cases random
    · rw [if_neg random, draws_of_not_draws random]
      rfl
  | @fault b leaf k fault failed =>
    by_cases random : k.Draws
    · cases k with
      | aimAtRandom => exact (List.append_nil _).symm
      | _ => cases random
    · rw [draws_of_not_draws random]
      exact (List.append_nil _).symm

/-! ## The rival of the latest update -/

theorem Performs.rival {ks : List (Skill α)} {b b' : Body α} (h : Performs ks b b') :
    b'.rival = b.rival :=
  h.keeps fun done => (Skill.perform_spared done).rival

omit [Scalar α] in
theorem Body.rest_rival (b : Body α) : b.rest.rival = b.rival := by
  obtain ⟨visual, same⟩ := b.rest_body
  rw [same]

def rivals (os : List (Operation α)) : List (Rival α) :=
  os.filterMap Operation.rival?

namespace Agent

theorem rival_operate {a a' : Agent α} {o : Operation α} (h : a.operate o = .ok a') :
    a'.body.rival = o.rival?.getD a.body.rival := by
  cases seen : o.rival? with
  | none =>
    obtain ⟨score, journal, same⟩ := operate_aside h seen
    rw [same]
    rfl
  | some rival =>
    cases o with
    | update rival' elapsed =>
      cases seen
      obtain ⟨before, b, performs, tick, status, same⟩ := performs_update h
      obtain ⟨journal, recorded⟩ := recordTick_body before tick status b.rest
      rw [same, recorded]
      exact b.rest_rival.trans performs.rival
    | collide | draw | clearJournal => cases seen

theorem rival_live {a a' : Agent α} {os : List (Operation α)} (lived : a.live os = .ok a') :
    a'.body.rival = (rivals os).getLastD a.body.rival := by
  induction os generalizing a with
  | nil =>
    cases lived
    rfl
  | cons o os ih =>
    obtain ⟨a₁, done, rest⟩ := bind_eq_ok.mp lived
    rw [ih rest, rival_operate done]
    cases o with
    | update rival elapsed => exact (List.getLastD_cons ..).symm
    | collide | draw | clearJournal => rfl

theorem rival_build {spec : AgentSpec α} {entropy : Rng} {a : Agent α}
    (h : spec.build entropy = .ok a) : a.body.rival = .initial := by
  obtain ⟨position, rng, frame, made⟩ := AgentSpec.build_made h
  rw [made]
  rfl

end Agent

/-! ## Where a target comes from -/

/-- In mode `m` the target of the body is the one of that mode, given the latest random target and
the rival of the latest update. -/
def Aims (c : Config α) (m : Mode) (b : Body α) (drawn : Option (Point α)) (seen : Rival α) :
    Prop :=
  match m with
  | .clean | .flee => True
  | .chase => b.target = seen.position
  | .evadeWander | .wander => b.target ∈ c.wanderRegion ∧ drawn = some b.target
  | .patrol =>
    c.stops ≠ [] ∧ c.stops[(b.patrol.index + c.stops.length - 1) % c.stops.length]? = some b.target

theorem Aims.of_eq {c : Config α} {m : Mode} {b b' : Body α} {drawn : Option (Point α)}
    {seen : Rival α} (h : Aims c m b drawn seen) (target : b'.target = b.target)
    (patrol : b'.patrol = b.patrol) : Aims c m b' drawn seen := by
  cases m with
  | clean | flee => trivial
  | chase | evadeWander | patrol | wander => simpa only [Aims, target, patrol] using h

omit [Scalar α] in
theorem Patrol.index_before {p : Patrol α} (proper : p.Proper) :
    ((p.index + 1) % p.stops.length + p.stops.length - 1) % p.stops.length = p.index := by
  rw [Proper] at proper
  by_cases last : p.index + 1 = p.stops.length
  · rw [last, Nat.mod_self, Nat.zero_add, Nat.mod_eq_of_lt (by omega)]
    omega
  · rw [Nat.mod_eq_of_lt (show p.index + 1 < p.stops.length by omega), Nat.add_right_comm,
      Nat.add_sub_cancel, Nat.add_mod_right, Nat.mod_eq_of_lt proper]

namespace Mode

variable {m : Mode} {c : Config α} {b : Body α} {drawn : Option (Point α)} {seen : Rival α}

theorem aims_walking (aims : Aims c m b drawn seen) (ds : List Nat) (arrival : α) :
    Aims c (m.walking ds (b.walkToTarget arrival)).mind (b.walkToTarget arrival).2 drawn seen := by
  simp only [walking]
  split
  · exact aims.of_eq rfl rfl
  · trivial

theorem aims_aimAtNextStop (equipped : b.Equipped c) (stops : c.stops ≠ []) :
    Aims c .patrol b.aimAtNextStop.2 drawn seen := by
  have proper := equipped.proper stops
  rw [Body.aimAtNextStop, Patrol.next?_of_proper _ proper]
  refine ⟨stops, ?_⟩
  rw [← equipped.stops]
  show b.patrol.stops[((b.patrol.index + 1) % b.patrol.stops.length + b.patrol.stops.length - 1) %
    b.patrol.stops.length]? = _
  rw [Patrol.index_before proper]
  exact List.getElem?_eq_getElem proper

variable [Scalar.Lawful α]

/-- A random target lies in the wander region, and the journal notes it. -/
theorem aims_aimAtRandom {aimed : Body α} {status : Status} (equipped : b.Equipped c)
    (aims : b.aimAtRandom = .ok (status, aimed)) :
    aimed.target ∈ c.wanderRegion ∧ aimed.randomTargets = b.randomTargets ++ [aimed.target] := by
  obtain ⟨target, rng, sampled, -, same⟩ := Body.aimAtRandom_ok aims
  rw [equipped.config] at sampled
  rw [same]
  exact ⟨Rect.sample_mem sampled, Body.notes_record Event.randomTarget? _ _⟩

/-- The move draws the random targets `new`, and leaves the target that its mode is to have. -/
structure Aimed (c : Config α) (b : Body α) (drawn : Option (Point α)) (mv : Move Mode α)
    (new : List (Point α)) : Prop where
  drew : mv.body.randomTargets = b.randomTargets ++ new
  aims : Aims c mv.mind mv.body (new.getLast?.or drawn) b.rival

theorem aimed_strolls (equipped : b.Equipped c) (aims : Aims c m b drawn seen) {ds : List Nat}
    {mv : Move Mode α} (goes : Strolls m c ds b mv) : ∃ new, Aimed c b drawn mv new := by
  cases goes with
  | patrol going =>
    subst going
    have same : Aims c .patrol b drawn b.rival := aims
    exact ⟨[], (List.append_nil _).symm, aims_walking same ..⟩
  | nextStop other stops =>
    have performed : Skill.aimAtNextStop.perform b = .ok (b.aimAtNextStop.1, b.aimAtNextStop.2) :=
      rfl
    exact ⟨[], Skill.perform_randomTargets performed,
      aims_walking (aims_aimAtNextStop equipped stops) ..⟩
  | wander going stops =>
    subst going
    have same : Aims c .wander b drawn b.rival := aims
    exact ⟨[], (List.append_nil _).symm, aims_walking same ..⟩
  | @random other stops status aimed took =>
    obtain ⟨inside, drew⟩ := aims_aimAtRandom equipped took
    have own : Aims c .wander aimed (some aimed.target) b.rival := ⟨inside, rfl⟩
    exact ⟨[aimed.target], drew, aims_walking own ..⟩

theorem aimed_step (equipped : b.Equipped c) (aims : Aims c m b drawn seen) {mv : Move Mode α}
    (steps : Steps m c b mv) : ∃ new, Aimed c b drawn mv new := by
  have fled := equipped_fleeing equipped
  have performed : Skill.flee.perform b = .ok ((fleeing b).1, (fleeing b).2) := rfl
  have quiet := (Skill.perform_randomTargets performed).trans (List.append_nil _)
  cases steps with
  | chase start decided =>
    have own : Aims c .chase { b with target := b.rival.position } drawn b.rival := rfl
    exact ⟨[], (List.append_nil _).symm, aims_walking own ..⟩
  | leave going behind =>
    subst going
    have same : Aims c .evadeWander b drawn b.rival := aims
    exact ⟨[], (List.append_nil _).symm, aims_walking same ..⟩
  | flee flees running => exact ⟨[], Skill.perform_randomTargets performed, trivial⟩
  | unsettled flees escaped near goes =>
    obtain ⟨target, patrol, rival⟩ := fleeing_spared b
    obtain ⟨new, drew, aimed⟩ := aimed_strolls fled (aims.of_eq target patrol) goes
    exact ⟨new, drew.trans (congrArg (· ++ new) quiet), rival ▸ aimed⟩
  | @settled flees escaped far status aimed took =>
    have idle : { (fleeing b).2 with visual := .idle }.Equipped c := fled.of_eq rfl rfl
    obtain ⟨inside, drew⟩ := aims_aimAtRandom idle took
    have own : Aims c .evadeWander aimed (some aimed.target) b.rival := ⟨inside, rfl⟩
    exact ⟨[aimed.target], drew.trans (congrArg (· ++ _) quiet), aims_walking own ..⟩
  | stroll free goes => exact aimed_strolls equipped aims goes

end Mode

namespace Agent

variable [Scalar.Lawful α]

/-- After these acts the agent is in a mode, and its target is the one of that mode. -/
def Headed (c : Config α) (past : List (Act α)) (a : Agent α) : Prop :=
  ∃ m, a.InMode c m ∧ Aims c m a.body (draws past).getLast? a.body.rival

omit [Scalar.Lawful α] in
theorem headed_build {spec : AgentSpec α} {entropy : Rng} {a : Agent α}
    (h : spec.build entropy = .ok a) : Headed spec.config [] a :=
  ⟨.clean, inMode_clean_build h, trivial⟩

theorem headed_operate {c : Config α} {past : List (Act α)} {a a' : Agent α} {o : Operation α}
    (headed : Headed c past a) (done : a.operate o = .ok a') :
    Headed c (past ++ a.actsIn o) a' := by
  obtain ⟨m, mode, aims⟩ := headed
  by_cases aside : o.rival? = none
  · obtain ⟨score, journal, same⟩ := operate_aside done aside
    rw [a.actsIn_aside aside, List.append_nil, same]
    exact ⟨m, ⟨mode.tree, mode.fits, mode.equipped.of_eq rfl rfl⟩, aims.of_eq rfl rfl⟩
  · cases o with
    | update rival elapsed =>
      have seen : a'.body.rival = rival := rival_operate done
      obtain ⟨mv, stepped, moved⟩ := mode.update_ok done
      have equipped : (a.perceived rival elapsed).Equipped c := mode.equipped.of_eq rfl rfl
      have before : Aims c m (a.perceived rival elapsed) (draws past).getLast? a.body.rival :=
        aims.of_eq rfl rfl
      obtain ⟨new, drew, aimed⟩ := Mode.aimed_step equipped before (Mode.steps_of_ok stepped)
      -- What the journal gained are the random targets of this update.
      have acted := a.acted_update rival elapsed
      rw [moved.context] at acted
      obtain rfl : new = draws (a.acts rival elapsed) :=
        List.append_cancel_left (drew.symm.trans acted.randomTargets)
      have rested := moved.samePlans
      refine ⟨mv.mind, moved.mode, ?_⟩
      rw [seen, draws_append, List.getLast?_append]
      exact Aims.of_eq aimed rested.target rested.patrol
    | collide | draw | clearJournal => exact absurd rfl aside

/-- What an agent is in the middle of tells where its target comes from: the latest stop, the latest
random target, or its rival as it was in the latest update. -/
theorem target_of_mode {spec : AgentSpec α} {entropy : Rng} {a₀ a : Agent α}
    {os : List (Operation α)} (built : spec.build entropy = .ok a₀) (lived : a₀.live os = .ok a) :
    (∃ m, a.LeftRunning m) ∧ ∀ m, a.LeftRunning m →
      Aims spec.config m a.body (draws (a₀.history os)).getLast?
        ((rivals os).getLastD .initial) := by
  have headed :=
    history_keeps (P := Headed spec.config) (fun _ _ _ _ h done => headed_operate h done)
      (headed_build built) lived
  obtain ⟨m, mode, aims⟩ := headed
  rw [rival_live lived, rival_build built] at aims
  refine ⟨⟨m, (mode.leftRunning_iff m).mpr rfl⟩, fun n running => ?_⟩
  rw [← (mode.leftRunning_iff n).mp running]
  exact aims

/-- An agent whose walks never arrive. -/
def restlessSpec (stops : List (Point Float)) : AgentSpec Float :=
  ⟨{ Config.shipped with arrivalRadius := 1.0e-200, stops }, some ⟨640.0, 512.0⟩, some 7⟩

theorem restless_target :
    ∃ a₀ a, (restlessSpec []).build 0 = .ok a₀ ∧
      a₀.live [.update goneRival 60.0, .draw, .update goneRival 60.0] = .ok a ∧
        a.LeftRunning .wander ∧ a.body.target ∈ (restlessSpec []).config.wanderRegion := by
  obtain ⟨a₀, a, built, lived, running⟩ := exists_life (restlessSpec []) 0
    [.update goneRival 60.0, .draw, .update goneRival 60.0] (P := fun a => a.LeftRunning .wander)
    (by decide +kernel)
  exact ⟨a₀, a, built, lived, running, ((target_of_mode built lived).2 .wander running).1⟩

end Agent

end ArenaAgent
