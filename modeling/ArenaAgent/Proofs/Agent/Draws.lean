import ArenaAgent.Proofs.Agent.Aim
import ArenaAgent.Proofs.Binary64.Zeros

/-!
The random targets of an agent are settled by the generator it starts with. Nothing but its draws
moves its generator on, and each draw moves it on in a way that depends on the wander region alone.
So agents that start with one generator draw the same targets, whatever happens between the draws
(`random_targets_of_seed`).
-/
namespace ArenaAgent

variable {α : Type} [Scalar α]

/-! ## Points drawn in a row -/

/-- From the generator `g` on these points are drawn from the rectangle, one after the other. -/
inductive Rect.Yields (r : Rect α) : Rng → List (Point α) → Rng → Prop
  | nil {g : Rng} : Yields r g [] g
  | cons {g g₁ g' : Rng} {p : Point α} {ps : List (Point α)} (first : r.sample g = .ok (p, g₁))
      (later : Yields r g₁ ps g') : Yields r g (p :: ps) g'

namespace Rect.Yields

variable {r : Rect α} {g g₁ g' : Rng} {ps qs : List (Point α)}

theorem append (h : r.Yields g ps g₁) (h' : r.Yields g₁ qs g') : r.Yields g (ps ++ qs) g' := by
  induction h with
  | nil => exact h'
  | cons first later ih => exact .cons first (ih h')

/-- What is drawn as the `k`-th point is settled by the generator. -/
theorem agree (h : r.Yields g ps g₁) (h' : r.Yields g qs g') {k : Nat} {p q : Point α}
    (hp : ps[k]? = some p) (hq : qs[k]? = some q) : p = q := by
  induction h generalizing qs k with
  | nil => cases hp
  | cons first later ih =>
    cases h' with
    | nil => cases hq
    | cons first' later' =>
      cases first.symm.trans first'
      cases k with
      | zero => exact (Option.some.inj hp).symm.trans (Option.some.inj hq)
      | succ k => exact ih later' hp hq

end Rect.Yields

/-! ## The generator in a life -/

theorem Acted.config {b b' : Body α} {acts : List (Act α)} (h : Acted b acts b') :
    b'.config = b.config :=
  h.keeps fun done => (Skill.perform_frame done).config

/-- Acts move the generator on by the targets that they draw. -/
theorem Acted.yields {b b' : Body α} {acts : List (Act α)} (h : Acted b acts b') :
    b.config.wanderRegion.Yields b.rng (draws acts) b'.rng := by
  induction h with
  | nil => exact .nil
  | @cons b b₁ b' leaf k status acts done rest ih =>
    rw [(Skill.perform_frame done).config] at ih
    by_cases random : k.Draws
    · cases k with
      | aimAtRandom =>
        obtain ⟨target, rng, sampled, rfl, rfl⟩ := Body.aimAtRandom_ok done
        exact .cons sampled ih
      | _ => cases random
    · rw [draws_of_not_draws random, ← (Skill.perform_spared done).rng random]
      exact ih
  | @fault b leaf k fault failed =>
    by_cases random : k.Draws
    · cases k with
      | aimAtRandom => exact .nil
      | _ => cases random
    · rw [draws_of_not_draws random]
      exact .nil

/-- A body with this configuration that drew the targets of its past, from the generator `g` on. -/
structure Body.Drew (c : Config α) (g : Rng) (past : List (Act α)) (b : Body α) : Prop where
  config : b.config = c
  yields : c.wanderRegion.Yields g (draws past) b.rng

namespace Body.Drew

variable {c : Config α} {g : Rng} {past : List (Act α)} {b b' : Body α}

theorem keep (h : b.Drew c g past) (same : SamePlans b b') : b'.Drew c g past :=
  ⟨same.config.trans h.config, same.rng ▸ h.yields⟩

theorem acted (h : b.Drew c g past) {acts : List (Act α)} (acted : Acted b acts b') :
    b'.Drew c g (past ++ acts) := by
  have more := acted.yields
  rw [h.config] at more
  refine ⟨acted.config.trans h.config, ?_⟩
  rw [draws_append]
  exact h.yields.append more

end Body.Drew

/-- A spawn point that was given leaves the generator alone. -/
theorem AgentSpec.spawnPoint_of_some {spec : AgentSpec α} {g g₁ : Rng} {p q : Point α}
    (given : spec.spawn = some q) (h : spec.spawnPoint g = .ok (p, g₁)) : g₁ = g := by
  simp only [spawnPoint, given] at h
  split at h <;> cases h
  rfl

theorem AgentSpec.spawnPoint_of_none {spec : AgentSpec α} {g g₁ : Rng} {p : Point α}
    (random : spec.spawn = none) (h : spec.spawnPoint g = .ok (p, g₁)) :
    spec.config.wanderRegion.sample g = .ok (p, g₁) := by
  simp only [spawnPoint, random] at h
  exact mapError_eq_ok.mp h

theorem AgentSpec.spawnPoint_rng {spec spec' : AgentSpec α} {g g₁ g₁' : Rng} {p p' : Point α}
    (h : spec.spawnPoint g = .ok (p, g₁)) (h' : spec'.spawnPoint g = .ok (p', g₁'))
    (spawns : spec.spawn.isSome = spec'.spawn.isSome)
    (region : spec.config.wanderRegion = spec'.config.wanderRegion) : g₁ = g₁' := by
  cases spawn : spec.spawn with
  | some q =>
    rw [spawn] at spawns
    obtain ⟨q', spawn'⟩ := Option.isSome_iff_exists.mp spawns.symm
    rw [spawnPoint_of_some spawn h, spawnPoint_of_some spawn' h']
  | none =>
    rw [spawn] at spawns
    have random : spec'.spawn = none :=
      Option.isNone_iff_eq_none.mp (Option.isSome_eq_false_iff.mp spawns.symm)
    have sampled := spawnPoint_of_none spawn h
    rw [region, spawnPoint_of_none random h'] at sampled
    cases sampled
    rfl

namespace Agent

theorem drew_operate {c : Config α} {g : Rng} {past : List (Act α)} {a a' : Agent α}
    {o : Operation α} (drew : a.body.Drew c g past) (done : a.operate o = .ok a') :
    a'.body.Drew c g (past ++ a.actsIn o) := by
  obtain ⟨b, b', before, acted, after⟩ := acted_operate done
  exact ((drew.keep before).acted acted).keep after

theorem yields_history {spec : AgentSpec α} {entropy : Rng} {a : Agent α}
    (built : spec.build entropy = .ok a) (os : List (Operation α)) :
    ∃ g, spec.config.wanderRegion.Yields a.body.rng (draws (a.history os)) g := by
  have born : a.body.Drew spec.config a.body.rng [] := ⟨(AgentSpec.build_ok built).2.1, .nil⟩
  have ends := history_of_kept (P := fun past a' => a'.body.Drew spec.config a.body.rng past)
    (Q := fun past e => e.body.Drew spec.config a.body.rng past)
    (fun _ _ _ _ drew done => drew_operate drew done)
    (fun past a' o e drew broken => by
      obtain ⟨b, before, acted⟩ := acted_operate_of_error broken
      exact (drew.keep before).acted acted) born os
  cases lived : a.live os with
  | ok a' =>
    rw [lived] at ends
    exact ⟨_, ends.yields⟩
  | error e =>
    rw [lived] at ends
    exact ⟨_, ends.yields⟩

variable [Scalar.Lawful α] [Scalar.ZerosAlike α]

/-- Agents that start with the same generator in equal arenas with equal wander margins, both with a
given spawn point or both without, start with the same frame, and the `k`-th random target of the
one is that of the other, whatever their lives. -/
theorem random_targets_of_seed {spec spec' : AgentSpec α} {entropy entropy' : Rng} {a b : Agent α}
    (built : spec.build entropy = .ok a) (built' : spec'.build entropy' = .ok b)
    (starts : spec.generator entropy = spec'.generator entropy')
    (arenas : spec.config.SameWandering spec'.config)
    (spawns : spec.spawn.isSome = spec'.spawn.isSome) :
    a.frame = b.frame ∧ ∀ (os os' : List (Operation α)) (k : Nat) (p q : Point α),
      (draws (a.history os))[k]? = some p → (draws (b.history os'))[k]? = some q → p = q := by
  have region := arenas.region_eq (AgentSpec.build_ok built).1
  obtain ⟨g, spawned, frame, rng⟩ := AgentSpec.build_rng built
  obtain ⟨g', spawned', frame', rng'⟩ := AgentSpec.build_rng built'
  rw [← starts] at spawned'
  obtain rfl := AgentSpec.spawnPoint_rng spawned spawned' spawns region
  refine ⟨frame.trans frame'.symm, fun os os' k p q hp hq => ?_⟩
  obtain ⟨_, yields⟩ := yields_history built os
  obtain ⟨_, yields'⟩ := yields_history built' os'
  rw [rng, region] at yields
  rw [rng'] at yields'
  exact yields.agree yields' hp hq

/-- A wanderer without stops. -/
def wandererSpec : AgentSpec Float :=
  ⟨{ Config.shipped with stops := [] }, some ⟨640.0, 512.0⟩, some 7⟩

/-- Another one, fast and of wide sense, that has its generator from its host. -/
def scoutSpec : AgentSpec Float :=
  ⟨{ Config.shipped with runSpeed := 40.0, senseRadius := 9.0, halfExtent := 20.0, stops := [] },
    some ⟨0.0, 0.0⟩, none⟩

/-- Legs with the rival out of sight. -/
def threeLegs : List (Operation Float) :=
  [.update ⟨⟨-5000.0, 0.0⟩, 3⟩ 60.0, .draw, .update ⟨⟨-5000.0, 0.0⟩, 3⟩ 60.0,
    .update ⟨⟨-5000.0, 0.0⟩, 3⟩ 60.0]

/-- A chase before legs of other lengths. -/
def chaseAndLegs : List (Operation Float) :=
  .collide scoringGroup :: .update ⟨⟨100.0, 100.0⟩, 0⟩ 2.0 ::
    List.replicate 4 (.update ⟨⟨9000.0, 9000.0⟩, 0⟩ 500.0)

theorem third_targets :
    ∃ a b p, wandererSpec.build 0 = .ok a ∧ scoutSpec.build 7 = .ok b ∧
      (draws (a.history threeLegs))[2]? = some p ∧
        (draws (b.history chaseAndLegs))[2]? = some p := by
  obtain ⟨a, _, built, lived, drawn⟩ := exists_life wandererSpec 0 []
    (P := fun a => (draws (a.history threeLegs))[2]?.isSome = true) (by decide +kernel)
  obtain ⟨b, _, built', lived', drawn'⟩ := exists_life scoutSpec 7 []
    (P := fun b => (draws (b.history chaseAndLegs))[2]?.isSome = true) (by decide +kernel)
  cases lived
  cases lived'
  obtain ⟨p, third⟩ := Option.isSome_iff_exists.mp drawn
  obtain ⟨q, third'⟩ := Option.isSome_iff_exists.mp drawn'
  have same := (random_targets_of_seed built built' (by decide +kernel)
    ⟨by decide +kernel, by decide +kernel, by decide +kernel⟩ rfl).2
      threeLegs chaseAndLegs 2 p q third third'
  exact ⟨a, b, p, built, built', third, same ▸ third'⟩

end Agent

end ArenaAgent
