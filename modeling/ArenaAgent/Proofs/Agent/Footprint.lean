import ArenaAgent.Binary64
import ArenaAgent.Proofs.Agent.Preemption

/-!
What a tick may change. Each skill writes some fields of the body and leaves the others alone
(`Skill.perform_sameAt`), so that a tick of any tree of skills, wherever it is suspended, changes
a field only if it visits a leaf that writes it. What no skill writes is the same for all leaves
that the tick visits.
-/
namespace ArenaAgent

/-- The fields of a body, without the journal. -/
inductive Body.Field where
  | config
  | speed
  | position
  | heading
  | visual
  | target
  | stops
  | nextStop
  | score
  | rival
  | elapsed
  | moved
  | rng

namespace Skill

variable {α : Type}

/-- The skill takes a target. -/
def Aims : Skill α → Prop
  | .chase _ | .aimAtRandom | .aimAtNextStop | .aimAt _ => True
  | _ => False

/-- The skill may change the field. -/
def Writes (k : Skill α) : Body.Field → Prop
  | .config | .speed | .stops | .score | .rival | .elapsed => False
  | .position | .heading | .moved => k.Walks
  | .visual => k.Walks ∨ k.Settles
  | .target => k.Aims
  | .nextStop => k.Departs
  | .rng => k.Draws

end Skill

namespace Body

variable {α : Type}

/-- The bodies agree in a field. -/
def SameAt (b b' : Body α) : Field → Prop
  | .config => b'.config = b.config
  | .speed => b'.speed = b.speed
  | .position => b'.position = b.position
  | .heading => b'.heading = b.heading
  | .visual => b'.visual = b.visual
  | .target => b'.target = b.target
  | .stops => b'.patrol.stops = b.patrol.stops
  | .nextStop => b'.patrol.index = b.patrol.index
  | .score => b'.score = b.score
  | .rival => b'.rival = b.rival
  | .elapsed => b'.elapsed = b.elapsed
  | .moved => b'.moved = b.moved
  | .rng => b'.rng = b.rng

theorem SameAt.refl (b : Body α) (f : Field) : b.SameAt b f := by
  cases f <;> rfl

theorem SameAt.trans {b₁ b₂ b₃ : Body α} {f : Field} (h : b₁.SameAt b₂ f) (h' : b₂.SameAt b₃ f) :
    b₁.SameAt b₃ f := by
  cases f <;> exact Eq.trans h' h

end Body

theorem Patrol.stops_of_next? {α : Type} {p q : Patrol α} {stop : Point α}
    (h : p.next? = some (stop, q)) : q.stops = p.stops := by
  obtain ⟨_, _, same⟩ := Option.map_eq_some_iff.mp h
  cases same
  rfl

variable {α : Type} [Scalar α]

/-- A skill leaves alone what it does not write. -/
theorem Skill.perform_sameAt {k : Skill α} {b b' : Body α} {status : Status}
    (h : k.perform b = .ok (status, b')) {f : Body.Field} (spared : ¬ k.Writes f) :
    b.SameAt b' f := by
  cases k with
  | rivalNear | ahead =>
    cases h
    exact .refl b f
  | chase | walk | aimAt =>
    cases h
    cases f <;> first | rfl | simp [Writes, Walks, Aims] at spared
  | flee =>
    cases h
    split <;> cases f <;> first | rfl | simp [Writes, Walks] at spared
  | settle radius =>
    rw [perform] at h
    split at h <;> cases h
    · exact .refl b f
    · cases f <;> first | rfl | simp [Writes, Settles] at spared
  | aimAtRandom =>
    obtain ⟨_, _, _, _, rfl⟩ := Body.aimAtRandom_ok h
    cases f <;> first | rfl | simp [Writes, Draws, Aims] at spared
  | aimAtNextStop =>
    simp only [perform, Body.aimAtNextStop] at h
    split at h <;> cases h
    · rename_i stop patrol next
      have stops := Patrol.stops_of_next? next
      cases f <;> first | rfl | exact stops | simp [Writes, Departs, Aims] at spared
    · exact .refl b f

theorem Performs.sameAt {ks : List (Skill α)} {b b' : Body α} (h : Performs ks b b')
    {f : Body.Field} (spared : ∀ k ∈ ks, ¬ k.Writes f) : b.SameAt b' f := by
  induction h with
  | nil => exact .refl _ f
  | cons first _ ih =>
    obtain ⟨own, others⟩ := List.forall_mem_cons.mp spared
    exact (Skill.perform_sameAt first own).trans (ih others)

/-- A field that was changed was written. -/
theorem Performs.exists_writes {ks : List (Skill α)} {b b' : Body α} (h : Performs ks b b')
    {f : Body.Field} (changed : ¬ b.SameAt b' f) : ∃ k ∈ ks, k.Writes f := by
  apply Classical.byContradiction
  intro none
  exact changed (h.sameAt fun k mem written => none ⟨k, mem, written⟩)

namespace Mind

/-- The skills of the leaves that a tick visits, in the order of the visits. -/
def visited (m : Mind α) (b : Body α) : List (Skill α) :=
  (m.tick (.ok b)).visits.filterMap fun n => m.tree.leaves[n]?

/-- A tick that does not break down does not do so in its first visits. -/
theorem performs_before {m : Mind α} {b b' : Body α} (ticked : (m.tick (.ok b)).context = .ok b')
    {before after : List Nat} (visits : (m.tick (.ok b)).visits = before ++ after) :
    ∃ seen, (Tree.replay m.tree.leaves before (.ok b)).2 = .ok seen ∧
      Performs (before.filterMap fun n => m.tree.leaves[n]?) b seen := by
  have ends : (Tree.replay m.tree.leaves (before ++ after) (.ok b)).2 = .ok b' := by
    rw [← visits, ← ticked]
    exact m.tree.context_tick (.ok b)
  rw [Tree.replay_append] at ends
  cases met : (Tree.replay m.tree.leaves before (.ok b)).2 with
  | ok seen => exact ⟨seen, rfl, performs_of_replay met⟩
  | error e =>
    rw [met, replay_error] at ends
    cases ends

/-- What a tick that does not break down changes, whatever the tree and wherever it is suspended:
nothing that no skill writes, and anything else only if it visits a leaf that does. Each leaf is
visited with the same rival in sight and the same scores. -/
theorem tick_changes_written (m : Mind α) {b b' : Body α}
    (ticked : (m.tick (.ok b)).context = .ok b') :
    (b'.config = b.config ∧ b'.speed = b.speed ∧ b'.score = b.score ∧ b'.rival = b.rival ∧
      b'.elapsed = b.elapsed ∧ b'.patrol.stops = b.patrol.stops) ∧
    (b'.patrol.index ≠ b.patrol.index → ∃ k ∈ m.visited b, k.Departs) ∧
    (b'.rng ≠ b.rng → ∃ k ∈ m.visited b, k.Draws) ∧
    (b'.target ≠ b.target → ∃ k ∈ m.visited b, k.Aims) ∧
    (b'.position ≠ b.position ∨ b'.heading ≠ b.heading ∨ b'.moved ≠ b.moved →
      ∃ k ∈ m.visited b, k.Walks) ∧
    (b'.visual ≠ b.visual → ∃ k ∈ m.visited b, k.Walks ∨ k.Settles) ∧
    ∀ before n after, (m.tick (.ok b)).visits = before ++ n :: after →
      ∃ seen, (Tree.replay m.tree.leaves before (.ok b)).2 = .ok seen ∧
        seen.rival = b.rival ∧ seen.score = b.score := by
  have performs : Performs (m.visited b) b b' := performs_tick ticked
  refine ⟨⟨?_, ?_, ?_, ?_, ?_, ?_⟩, ?_, ?_, ?_, ?_, ?_, ?_⟩
  · exact performs.sameAt (f := .config) fun _ _ => id
  · exact performs.sameAt (f := .speed) fun _ _ => id
  · exact performs.sameAt (f := .score) fun _ _ => id
  · exact performs.sameAt (f := .rival) fun _ _ => id
  · exact performs.sameAt (f := .elapsed) fun _ _ => id
  · exact performs.sameAt (f := .stops) fun _ _ => id
  · exact fun changed => performs.exists_writes (f := .nextStop) changed
  · exact fun changed => performs.exists_writes (f := .rng) changed
  · exact fun changed => performs.exists_writes (f := .target) changed
  · rintro (changed | changed | changed)
    · exact performs.exists_writes (f := .position) changed
    · exact performs.exists_writes (f := .heading) changed
    · exact performs.exists_writes (f := .moved) changed
  · exact fun changed => performs.exists_writes (f := .visual) changed
  · intro before n after visits
    obtain ⟨seen, met, earlier⟩ := performs_before ticked visits
    exact ⟨seen, met, earlier.sameAt (f := .rival) fun _ _ => id,
      earlier.sameAt (f := .score) fun _ _ => id⟩

/-- Flees from a rival in sight, and otherwise calls at the next stop before it goes anywhere. -/
def errands : Mind Float :=
  .new (.fresh .selector [.fresh .sequence [.leaf (.rivalNear 7.0), .leaf .flee],
    .fresh .sequence [.leaf .aimAtNextStop, .leaf (.walk 0.5), .leaf (.settle 7.0),
      .leaf .aimAtRandom]])

/-- Stands on its first stop, with the rival far away. -/
def caller : Body Float :=
  (Body.spawn Config.shipped ⟨43.0, 274.0⟩ (.ofSeed 7)).perceive ⟨⟨1000.0, 900.0⟩, 2⟩ 0.05

/-- Leaf number 5 draws the random target that follows the stop. It sees the rival of the start. -/
theorem errands_change_written :
    ∃ b', (errands.tick (.ok caller)).context = .ok b' ∧
      (errands.tick (.ok caller)).visits = [0, 2, 3, 4, 5] ∧
      b'.rng ≠ caller.rng ∧ (∃ k ∈ errands.visited caller, k.Draws) ∧ b'.rival = caller.rival ∧
        ∃ seen, (Tree.replay errands.tree.leaves [0, 2, 3, 4] (.ok caller)).2 = .ok seen ∧
          seen.rival = caller.rival ∧ seen.score = caller.score := by
  have visits : (errands.tick (.ok caller)).visits = [0, 2, 3, 4, 5] := by decide +kernel
  have redrawn : (errands.tick (.ok caller)).context.toOption.any (·.rng ≠ caller.rng) = true := by
    decide +kernel
  obtain ⟨b', ticked, drawn⟩ := any_toOption_iff.mp redrawn
  have other := of_decide_eq_true drawn
  obtain ⟨⟨-, -, -, rival, -⟩, -, draws, -, -, -, sees⟩ := tick_changes_written errands ticked
  exact ⟨b', ticked, visits, other, draws other, rival, sees [0, 2, 3, 4] 5 [] visits⟩

end Mind

end ArenaAgent
