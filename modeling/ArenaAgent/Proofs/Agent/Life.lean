import ArenaAgent.Agent.Basic
import ArenaAgent.Proofs.Except
import ArenaAgent.Proofs.Tree.Replay

/-!
The life of an agent: it is built, and then its host does with it what a host can do, in any order.
A life ends early with a breakdown.
-/
namespace ArenaAgent

/-- What a host does with an agent. -/
inductive Operation (α : Type) where
  /-- One frame, with the rival as it is then. -/
  | update (rival : Rival α) (elapsed : α)
  | collide (group : String)
  | draw
  | clearJournal

def Skill.Walks {α : Type} : Skill α → Prop
  | .chase _ | .walk _ | .flee => True
  | _ => False

instance {α : Type} (k : Skill α) : Decidable k.Walks := by
  cases k <;> first | exact .isTrue trivial | exact .isFalse id

def Skill.Draws {α : Type} : Skill α → Prop
  | .aimAtRandom => True
  | _ => False

instance {α : Type} (k : Skill α) : Decidable k.Draws := by
  cases k <;> first | exact .isTrue trivial | exact .isFalse id

variable {α : Type} [Scalar α]

/-- Skills that a body performs one after the other, and what becomes of it. -/
inductive Performs : List (Skill α) → Body α → Body α → Prop
  | nil {b : Body α} : Performs [] b b
  | cons {k : Skill α} {b b₁ b' : Body α} {status : Status} {ks : List (Skill α)}
      (first : k.perform b = .ok (status, b₁)) (rest : Performs ks b₁ b') : Performs (k :: ks) b b'

/-- What every skill keeps of a body is kept by all that is performed. -/
theorem Performs.keeps {β : Type} {f : Body α → β}
    (kept : ∀ {k : Skill α} {b b' : Body α} {status : Status},
      k.perform b = .ok (status, b') → f b' = f b)
    {ks : List (Skill α)} {b b' : Body α} (h : Performs ks b b') : f b' = f b := by
  induction h with
  | nil => rfl
  | cons first _ ih => exact ih.trans (kept first)

/-- After a breakdown no skill does anything any more. -/
theorem replay_error (leaves : List (Skill α)) (ns : List Nat) (e : Breakdown α) :
    (Tree.replay leaves ns (.error e : Except (Breakdown α) (Body α))).2 = .error e := by
  induction ns with
  | nil => rfl
  | cons n ns ih =>
    simp only [Tree.replay]
    cases leaves[n]? with
    | none => exact ih
    | some k => exact ih

/-- A run through leaves that does not break down performs their skills. -/
theorem performs_of_replay {leaves : List (Skill α)} {ns : List Nat} {b b' : Body α}
    (h : (Tree.replay leaves ns (.ok b)).2 = .ok b') :
    Performs (ns.filterMap fun n => leaves[n]?) b b' := by
  induction ns generalizing b with
  | nil =>
    cases h
    exact .nil
  | cons n ns ih =>
    simp only [Tree.replay] at h
    rw [List.filterMap_cons]
    cases found : leaves[n]? with
    | none =>
      rw [found] at h
      exact ih h
    | some k =>
      simp only [found] at h
      cases done : k.perform b with
      | ok r =>
        rw [Skill.tick_of_perform k b r.2 r.1 done] at h
        exact .cons done (ih h)
      | error fault =>
        rw [Skill.tick_of_fault k b fault done, replay_error] at h
        cases h

/-- A tick that does not break down performs the skills of the leaves that it visits. -/
theorem performs_tick {t : Tree (Skill α)} {b b' : Body α}
    (h : (t.tick 0 (.ok b)).context = .ok b') :
    Performs ((t.tick 0 (.ok b)).visits.filterMap fun n => t.leaves[n]?) b b' :=
  performs_of_replay (t.context_tick (.ok b) ▸ h)

/-- What a skill keeps: the configuration, and, if it is no walk, the position. -/
structure Body.Frame (k : Skill α) (b b' : Body α) : Prop where
  config : b'.config = b.config
  position : ¬ k.Walks → b'.position = b.position

theorem Skill.perform_frame {k : Skill α} {b b' : Body α} {status : Status}
    (h : k.perform b = .ok (status, b')) : Body.Frame k b b' := by
  cases k with
  | rivalNear | ahead | aimAt =>
    cases h
    exact ⟨rfl, fun _ => rfl⟩
  | chase | walk =>
    cases h
    exact ⟨rfl, fun idle => absurd trivial idle⟩
  | flee =>
    cases h
    refine ⟨?_, fun idle => absurd trivial idle⟩
    split <;> rfl
  | settle radius =>
    rw [perform] at h
    split at h <;> cases h <;> exact ⟨rfl, fun _ => rfl⟩
  | aimAtRandom =>
    obtain ⟨_, _, _, _, rfl⟩ := Body.aimAtRandom_ok h
    exact ⟨rfl, fun _ => rfl⟩
  | aimAtNextStop =>
    simp only [perform, Body.aimAtNextStop] at h
    split at h <;> cases h <;> exact ⟨rfl, fun _ => rfl⟩

/-- What the journal says, as far as `f` reads it. -/
def Body.notes {β : Type} (f : Event α → Option β) (b : Body α) : List β :=
  b.journal.toList.filterMap f

omit [Scalar α] in
theorem Body.notes_record {β : Type} (f : Event α → Option β) (b : Body α) (e : Event α) :
    (b.record e).notes f = b.notes f ++ (f e).toList := by
  rw [notes, record, Array.toList_push, List.filterMap_append]
  cases read : f e <;> simp [notes, read]

omit [Scalar α] in
theorem Body.notes_record_of_none {β : Type} {f : Event α → Option β} (b : Body α) {e : Event α}
    (h : f e = none) : (b.record e).notes f = b.notes f := by
  rw [notes_record, h]
  exact List.append_nil _

/-- To a reader of neither legs nor escapes a skill says nothing but the random
target that it draws. -/
theorem Skill.perform_notes {β : Type} {f : Event α → Option β}
    (legs : ∀ i p, f (.patrolLeg i p) = none) (escapes : ∀ p, f (.escapedRival p) = none)
    {k : Skill α} {b b' : Body α} {status : Status} (h : k.perform b = .ok (status, b')) :
    b'.notes f = b.notes f ++ if k.Draws then (f (.randomTarget b'.target)).toList else [] := by
  cases k with
  | rivalNear | ahead | aimAt | chase | walk =>
    cases h
    exact (List.append_nil _).symm
  | flee =>
    cases h
    refine Eq.trans ?_ (List.append_nil _).symm
    split
    · rfl
    · exact Body.notes_record_of_none _ (escapes _)
  | settle radius =>
    rw [perform] at h
    split at h <;> cases h <;> exact (List.append_nil _).symm
  | aimAtRandom =>
    obtain ⟨target, rng, -, -, same⟩ := Body.aimAtRandom_ok h
    rw [same]
    exact Body.notes_record f _ _
  | aimAtNextStop =>
    simp only [perform, Body.aimAtNextStop] at h
    split at h <;> cases h
    · exact (Body.notes_record_of_none _ (legs _ _)).trans (List.append_nil _).symm
    · exact (List.append_nil _).symm

def lastWalk (ks : List (Skill α)) : Option (Skill α) :=
  (ks.filter (·.Walks)).getLast?

/-- The same configuration, and the same position in its arena. -/
structure Body.SamePlace (b b' : Body α) : Prop where
  config : b'.config = b.config
  position : b'.position = b.position

omit [Scalar α] in
theorem Body.SamePlace.trans {b₁ b₂ b₃ : Body α} (h : SamePlace b₂ b₃) (h' : SamePlace b₁ b₂) :
    SamePlace b₁ b₃ :=
  ⟨h.config.trans h'.config, h.position.trans h'.position⟩

omit [Scalar α] in
theorem Body.rest_place (b : Body α) : SamePlace b b.rest := by
  obtain ⟨visual, same⟩ := b.rest_body
  rw [same]
  exact ⟨rfl, rfl⟩

/-- An agent is built from an accepted configuration, in its arena. -/
theorem AgentSpec.build_ok {spec : AgentSpec α} {entropy : Rng} {a : Agent α}
    (h : spec.build entropy = .ok a) :
    spec.config.check = .ok () ∧ a.body.config = spec.config ∧
      ∃ rng rng', spec.spawnPoint rng = .ok (a.body.position, rng') := by
  simp only [AgentSpec.build, bind, bind_eq_ok, mapError_eq_ok] at h
  obtain ⟨_, checked, ⟨position, rng⟩, spawned, made⟩ := h
  cases made
  exact ⟨checked, rfl, _, rng, spawned⟩

theorem AgentSpec.build_made {spec : AgentSpec α} {entropy : Rng} {a : Agent α}
    (h : spec.build entropy = .ok a) :
    ∃ position rng frame, a =
      ⟨(Body.spawn spec.config position rng).record (.spawned position spec.seed),
        .ofConfig spec.config, frame⟩ := by
  simp only [AgentSpec.build, bind, bind_eq_ok] at h
  obtain ⟨_, _, _, _, made⟩ := h
  exact ⟨_, _, _, (Except.ok.inj made).symm⟩

/-- The generator with which an agent is born: after its spawn point and its first
frame were drawn. -/
theorem AgentSpec.build_rng {spec : AgentSpec α} {entropy : Rng} {a : Agent α}
    (h : spec.build entropy = .ok a) :
    ∃ rng, spec.spawnPoint (spec.generator entropy) = .ok (a.body.position, rng) ∧
      a.frame = OfScientific.ofScientific rng.digit.1 false 0 ∧ a.body.rng = rng.digit.2 := by
  simp only [AgentSpec.build, bind, bind_eq_ok, mapError_eq_ok] at h
  obtain ⟨_, _, ⟨position, rng⟩, spawned, made⟩ := h
  cases made
  exact ⟨rng, spawned, rfl, rfl⟩

namespace Agent

def operate (a : Agent α) : Operation α → Except (Breakdown α) (Agent α)
  | .update rival elapsed => a.update rival elapsed
  | .collide group => .ok (a.collide group)
  | .draw => .ok a.recordDrawings
  | .clearJournal => .ok a.clearJournal

def live (a : Agent α) : List (Operation α) → Except (Breakdown α) (Agent α)
  | [] => .ok a
  | o :: os => (a.operate o).bind fun a => a.live os

/-- What every operation keeps is kept for life. -/
theorem live_keeps {P : Agent α → Prop}
    (kept : ∀ a a' o, P a → a.operate o = .ok a' → P a') {a a' : Agent α} (h : P a)
    {os : List (Operation α)} (lived : a.live os = .ok a') : P a' := by
  induction os generalizing a with
  | nil =>
    cases lived
    exact h
  | cons o os ih =>
    obtain ⟨a₁, done, rest⟩ := bind_eq_ok.mp lived
    exact ih (kept a a₁ o h done) rest

/-- A life that can be computed. -/
theorem exists_life (spec : AgentSpec α) (entropy : Rng) (os : List (Operation α))
    {P : Agent α → Prop} [DecidablePred P]
    (h : ((spec.build entropy).toOption.bind fun a => (a.live os).toOption).any (P ·) = true) :
    ∃ a₀ a, spec.build entropy = .ok a₀ ∧ a₀.live os = .ok a ∧ P a := by
  rw [Option.any_bind] at h
  obtain ⟨a₀, built, h⟩ := any_toOption_iff.mp h
  obtain ⟨a, lived, holds⟩ := any_toOption_iff.mp h
  exact ⟨a₀, a, built, lived, of_decide_eq_true holds⟩

/-- The skills that the update performs, in the order in which they are. -/
def performed (a : Agent α) (rival : Rival α) (elapsed : α) : List (Skill α) :=
  let o := a.mind.tick (.ok (a.body.perceive rival (passing elapsed)))
  o.visits.filterMap fun n => a.mind.tree.leaves[n]?

/-- What an update is made of: the skills that it performs, between the perception of the
rival and the rest. -/
theorem performs_update {a a' : Agent α} {rival : Rival α} {elapsed : α}
    (h : a.update rival elapsed = .ok a') :
    ∃ before b, Performs (a.performed rival elapsed) (a.body.perceive rival (passing elapsed)) b ∧
      ∃ tick status, a'.body = recordTick before tick status b.rest := by
  obtain ⟨b, done, made⟩ := map_eq_ok.mp h
  cases made
  exact ⟨_, b, performs_tick done, _, _, rfl⟩

omit [Scalar α] in
/-- The record of a tick goes to the journal alone. -/
theorem recordTick_body (before : Visual) (tick : Nat) (status : Status) (b : Body α) :
    ∃ journal, recordTick before tick status b = { b with journal } := by
  simp only [recordTick]
  split <;> exact ⟨_, rfl⟩

theorem recordDrawings_body (a : Agent α) :
    ∃ journal, a.recordDrawings.body = { a.body with journal } := by
  have recorded (ds : List (Drawing α)) (b : Body α) :
      ∃ journal, ds.foldl (fun b d => b.record (.drew d)) b = { b with journal } := by
    induction ds generalizing b with
    | nil => exact ⟨b.journal, rfl⟩
    | cons d ds ih => exact ih (b.record (.drew d))
  exact recorded a.drawings a.body

omit [Scalar α] in
theorem recordTick_place (before : Visual) (tick : Nat) (status : Status) (b : Body α) :
    Body.SamePlace b (recordTick before tick status b) := by
  obtain ⟨journal, same⟩ := recordTick_body before tick status b
  rw [same]
  exact ⟨rfl, rfl⟩

omit [Scalar α] in
theorem collide_place (a : Agent α) (group : String) :
    Body.SamePlace a.body (a.collide group).body := by
  rw [collide]
  split <;> exact ⟨rfl, rfl⟩

theorem recordDrawings_place (a : Agent α) : Body.SamePlace a.body a.recordDrawings.body := by
  obtain ⟨journal, same⟩ := a.recordDrawings_body
  rw [same]
  exact ⟨rfl, rfl⟩

end Agent

end ArenaAgent
