import ArenaAgent.Proofs.Agent.Life
import ArenaAgent.Proofs.Arena.Regions
import ArenaAgent.Proofs.Binary64.Lawful

/-!
An agent never leaves its arena, whatever its rival does and however much time passes, and it is in
its flee region after each update that ends with a flight.
-/
namespace ArenaAgent

variable {α : Type} [Scalar α] [Scalar.Lawful α]

theorem Skill.perform_flee_mem {b b' : Body α} {status : Status} (roomy : b.config.Roomy)
    (h : Skill.flee.perform b = .ok (status, b')) : b'.position ∈ b.config.fleeRegion := by
  have landed : (b.fleeFrom b.rival.position).2.position ∈ b.config.fleeRegion :=
    Rect.clamp_mem roomy.flee _
  cases h
  split <;> exact landed

theorem Skill.perform_mem {k : Skill α} {b b' : Body α} {status : Status} (roomy : b.config.Roomy)
    (inside : b.position ∈ b.config.arena) (h : k.perform b = .ok (status, b')) :
    b'.position ∈ b.config.arena := by
  by_cases walks : k.Walks
  · cases k with
    | chase | walk =>
      cases h
      exact Rect.clamp_mem roomy.arena _
    | flee => exact roomy.flee_sub _ (perform_flee_mem roomy h)
    | _ => exact walks.elim
  · rw [(perform_frame h).position walks]
    exact inside

/-- Where the skills of a tick leave a body. -/
structure Body.Confined (ks : List (Skill α)) (b b' : Body α) : Prop where
  config : b'.config = b.config
  arena : b'.position ∈ b.config.arena
  stays : ks.filter (·.Walks) = [] → b'.position = b.position
  flee : lastWalk ks = some .flee → b'.position ∈ b.config.fleeRegion

theorem Performs.confined {ks : List (Skill α)} {b b' : Body α} (h : Performs ks b b')
    (roomy : b.config.Roomy) (inside : b.position ∈ b.config.arena) : Body.Confined ks b b' := by
  induction h with
  | nil => exact ⟨rfl, inside, fun _ => rfl, nofun⟩
  | @cons k b b₁ b' status ks first rest ih =>
    have frame := Skill.perform_frame first
    have landed := Skill.perform_mem roomy inside first
    obtain ⟨config, arena, stays, flee⟩ := ih (frame.config ▸ roomy) (frame.config ▸ landed)
    rw [frame.config] at config arena flee
    by_cases walks : k.Walks
    · refine ⟨config, arena, ?_, ?_⟩
      · rw [List.filter_cons_of_pos (by simpa using walks)]
        exact nofun
      · intro last
        rw [lastWalk, List.filter_cons_of_pos (by simpa using walks), List.getLast?_cons] at last
        cases later : ks.filter (·.Walks) with
        | nil =>
          -- The body stays where this flight took it.
          rw [later] at last
          cases last
          rw [stays later]
          exact Skill.perform_flee_mem roomy first
        | cons k' ks' =>
          apply flee
          rw [lastWalk, later, ← last, later, List.getLast?_cons, Option.getD_some]
    · have same := frame.position walks
      refine ⟨config, arena, ?_, ?_⟩
      · rw [List.filter_cons_of_neg (by simpa using walks), ← same]
        exact stays
      · rw [lastWalk, List.filter_cons_of_neg (by simpa using walks)]
        exact flee

namespace AgentSpec

theorem spawnPoint_mem {spec : AgentSpec α} (roomy : spec.config.Roomy)
    {rng rng' : Rng} {p : Point α} (h : spec.spawnPoint rng = .ok (p, rng')) :
    p ∈ spec.config.arena := by
  rw [spawnPoint] at h
  split at h
  · split at h
    · cases h
      assumption
    · cases h
  · exact roomy.wander_sub _ (Rect.sample_mem (mapError_eq_ok.mp h))

end AgentSpec

namespace Agent

/-- An agent with this configuration that stands in its arena. -/
structure Placed (c : Config α) (a : Agent α) : Prop where
  config : a.body.config = c
  arena : a.body.position ∈ c.arena

omit [Scalar.Lawful α] in
theorem Placed.of_samePlace {c : Config α} {a a' : Agent α} (h : a.Placed c)
    (same : Body.SamePlace a.body a'.body) : a'.Placed c :=
  ⟨same.config.trans h.config, same.position ▸ h.arena⟩

theorem placed_build {spec : AgentSpec α} {entropy : Rng} {a : Agent α}
    (h : spec.build entropy = .ok a) : spec.config.Roomy ∧ a.Placed spec.config := by
  obtain ⟨checked, config, _, _, spawned⟩ := AgentSpec.build_ok h
  have roomy := Config.roomy_of_check checked
  exact ⟨roomy, config, AgentSpec.spawnPoint_mem roomy spawned⟩

theorem placed_update {c : Config α} (roomy : c.Roomy) {a a' : Agent α} (placed : a.Placed c)
    {rival : Rival α} {elapsed : α} (h : a.update rival elapsed = .ok a') :
    a'.Placed c ∧
      (lastWalk (a.performed rival elapsed) = some .flee → a'.body.position ∈ c.fleeRegion) := by
  obtain ⟨before, b, performs, tick, status, body⟩ := performs_update h
  obtain ⟨rfl, inside⟩ := placed
  have confined := performs.confined roomy inside
  have same := (recordTick_place before tick status b.rest).trans b.rest_place
  rw [← body] at same
  rw [same.position]
  exact ⟨⟨same.config.trans confined.config, same.position ▸ confined.arena⟩, confined.flee⟩

theorem placed_operate {c : Config α} (roomy : c.Roomy) {a a' : Agent α} (placed : a.Placed c)
    {o : Operation α} (h : a.operate o = .ok a') : a'.Placed c := by
  cases o with
  | update rival elapsed => exact (placed_update roomy placed h).1
  | collide group =>
    cases h
    exact placed.of_samePlace (collide_place a group)
  | draw =>
    cases h
    exact placed.of_samePlace a.recordDrawings_place
  | clearJournal =>
    cases h
    exact placed.of_samePlace ⟨rfl, rfl⟩

theorem placed_live {c : Config α} (roomy : c.Roomy) {a a' : Agent α} (placed : a.Placed c)
    {os : List (Operation α)} (h : a.live os = .ok a') : a'.Placed c :=
  live_keeps (fun _ _ _ placed done => placed_operate roomy placed done) placed h

/-- At every moment of its life an agent stands in its arena, and after an update whose last walk
was a flight it stands in its flee region. -/
theorem stays_in_arena {spec : AgentSpec α} {entropy : Rng} {a₀ a : Agent α}
    {os : List (Operation α)} (built : spec.build entropy = .ok a₀) (lived : a₀.live os = .ok a) :
    a.body.config = spec.config ∧ a.body.position ∈ spec.config.arena ∧
      ∀ rival elapsed a', a.update rival elapsed = .ok a' →
        lastWalk (a.performed rival elapsed) = some .flee →
          a'.body.position ∈ spec.config.fleeRegion := by
  obtain ⟨roomy, placed⟩ := placed_build built
  have now := placed_live roomy placed lived
  exact ⟨now.config, now.arena, fun rival elapsed a' updated => (placed_update roomy now updated).2⟩

/-- The shipped agent, among doubles: it scores, walks to a rival close by, and is drawn there. -/
theorem shipped_stays_in_arena :
    ∃ a₀ a : Agent Float, AgentSpec.build ⟨.shipped, some ⟨100.0, 100.0⟩, some 7⟩ 0 = .ok a₀ ∧
      a₀.live [.collide scoringGroup, .update ⟨⟨110.0, 110.0⟩, 0⟩ 1.0, .draw] = .ok a ∧
      a.body.position ∈ (Config.shipped : Config Float).arena := by
  obtain ⟨a₀, a, built, lived, -⟩ := exists_life ⟨.shipped, some ⟨(100.0 : Float), 100.0⟩, some 7⟩ 0
    [.collide scoringGroup, .update ⟨⟨110.0, 110.0⟩, 0⟩ 1.0, .draw] (P := fun _ => True)
    (by decide +kernel)
  exact ⟨a₀, a, built, lived, (stays_in_arena built lived).2.1⟩

end Agent

end ArenaAgent
