import ArenaAgent.Proofs.Agent.Gait

/-!
Every update that comes to its end walks, so an agent never stands still after its first update, and
its visual changes in that one alone (`update_walks`).
-/
namespace ArenaAgent

variable {α : Type}

/-! ## Changes of the visual -/

def Event.visualChange? : Event α → Option (Visual × Visual)
  | .visualChanged before after => some (before, after)
  | _ => none

namespace Body

def visualChanges (b : Body α) : List (Visual × Visual) :=
  b.journal.toList.filterMap Event.visualChange?

theorem visualChanges_record (b : Body α) (e : Event α) :
    (b.record e).visualChanges = b.visualChanges ++ e.visualChange?.toList :=
  b.notes_record Event.visualChange? e

theorem visualChanges_recordTick (b : Body α) (before : Visual) (tick : Nat) (status : Status) :
    (Agent.recordTick before tick status b).visualChanges =
      b.visualChanges ++ if before = b.visual then [] else [(before, b.visual)] := by
  have ticked : (b.record (.ticked tick status b.position)).visualChanges = b.visualChanges := by
    rw [visualChanges_record]
    exact List.append_nil _
  simp only [Agent.recordTick]
  by_cases same : before = b.visual
  · rw [if_pos (show before = (b.record _).visual from same), if_pos same, ticked, List.append_nil]
  · rw [if_neg (show ¬ before = (b.record _).visual from same), if_neg same,
      visualChanges_record, ticked]
    rfl

end Body

variable [Scalar α]

theorem Skill.perform_visualChanges {k : Skill α} {b b' : Body α} {status : Status}
    (h : k.perform b = .ok (status, b')) : b'.visualChanges = b.visualChanges := by
  have notes : b'.visualChanges = b.visualChanges ++ if k.Draws then [] else [] :=
    Skill.perform_notes (f := Event.visualChange?) (fun _ _ => rfl) (fun _ => rfl) h
  rwa [ite_self, List.append_nil] at notes

theorem Performs.visualChanges {ks : List (Skill α)} {b b' : Body α} (h : Performs ks b b') :
    b'.visualChanges = b.visualChanges :=
  h.keeps Skill.perform_visualChanges

/-! ## Updates -/

def Operation.IsUpdate : Operation α → Prop
  | .update .. => True
  | _ => False

instance : (o : Operation α) → Decidable o.IsUpdate
  | .update .. => .isTrue trivial
  | .collide _ | .draw | .clearJournal => .isFalse id

namespace Agent

/-- In this update the agent flees, and its flight succeeds. -/
def Escapes (a : Agent α) (rival : Rival α) (elapsed : α) : Prop :=
  ∃ r ∈ a.mind.tree.answers (.ok (a.perceived rival elapsed)), r.2 = .success ∧
    ∃ k ∈ a.mind.tree.leaves[r.1]?, k.Flees

instance (a : Agent α) (rival : Rival α) (elapsed : α) : Decidable (a.Escapes rival elapsed) :=
  inferInstanceAs (Decidable (∃ r ∈ _, _))

/-- The update of `a` that ended with `a'` walked. -/
structure Strode (a : Agent α) (rival : Rival α) (elapsed : α) (first : Prop) [Decidable first]
    (a' : Agent α) : Prop where
  visual : a'.body.visual = .walk
  answer : a'.answer = some .running ∨ a'.answer = some .success
  walks : (a.performed rival elapsed).countP (·.Walks) = if a.Escapes rival elapsed then 2 else 1
  restless : ∀ b, (a.ticked rival elapsed).context = .ok b → b.rest = b
  changes : a'.body.visualChanges = a.body.visualChanges ++ if first then [(.idle, .walk)] else []

section InMode

variable {c : Config α} {m : Mode} {a : Agent α} (h : a.InMode c m) (rival : Rival α) (elapsed : α)

include h

theorem InMode.escapes_iff : a.Escapes rival elapsed ↔ m.Escapes c (a.perceived rival elapsed) := by
  rw [← m.escape_mem_answers, Escapes, h.tree]
  simp only [m.flees_leaf_iff c]
  constructor
  · rintro ⟨⟨n, status⟩, mem, rfl, rfl⟩
    exact mem
  · intro mem
    exact ⟨_, mem, rfl, rfl⟩

theorem InMode.countP_walks :
    (a.performed rival elapsed).countP (·.Walks) =
      Mode.walks (deeds (a.ticked rival elapsed).visits) := by
  rw [h.performed_eq, m.countP_walks, ← h.tree]
  rfl

theorem InMode.strode {mv : Move Mode α} {a' : Agent α}
    (stepped : m.step c (a.perceived rival elapsed) = .ok mv)
    (moved : Moved c a rival elapsed mv a') {first : Prop} [Decidable first]
    (idle : first ↔ a.body.visual = .idle) : Strode a rival elapsed first a' := by
  have walked := Mode.walked_step stepped
  have rest : mv.body.rest = mv.body := if_pos walked.moved
  have performs : Performs _ (a.perceived rival elapsed) mv.body := performs_tick moved.context
  have body := moved.body
  rw [rest] at body
  refine ⟨?_, ?_, ?_, ?_, ?_⟩
  · obtain ⟨journal, same⟩ := recordTick_body a.body.visual (a.mind.ticks + 1) mv.status mv.body
    rw [body, same]
    exact walked.visual
  · rw [moved.answer]
    exact walked.answer.imp (congrArg some) (congrArg some)
  · rw [h.countP_walks, moved.done, walked.count]
    simp only [h.escapes_iff]
  · intro b ended
    cases moved.context.symm.trans ended
    exact rest
  · rw [body, Body.visualChanges_recordTick, performs.visualChanges, walked.visual]
    simp only [idle]
    cases a.body.visual <;> rfl

end InMode

theorem visual_build {spec : AgentSpec α} {entropy : Rng} {a : Agent α}
    (h : spec.build entropy = .ok a) : a.body.visual = .idle := by
  obtain ⟨position, rng, frame, made⟩ := AgentSpec.build_made h
  rw [made]
  rfl

theorem visual_operate {c : Config α} {a a' : Agent α} (h : ∃ m, a.InMode c m) {o : Operation α}
    (done : a.operate o = .ok a') :
    a'.body.visual = if o.IsUpdate then .walk else a.body.visual := by
  cases o with
  | update rival elapsed =>
    obtain ⟨m, h⟩ := h
    obtain ⟨mv, stepped, moved⟩ := h.update_ok done
    exact (h.strode rival elapsed stepped moved Iff.rfl).visual
  | collide group =>
    cases done
    rw [collide]
    split <;> rfl
  | draw =>
    cases done
    obtain ⟨journal, same⟩ := a.recordDrawings_body
    rw [same]
    rfl
  | clearJournal =>
    cases done
    rfl

theorem visual_live {c : Config α} {a a' : Agent α} (h : ∃ m, a.InMode c m)
    {os : List (Operation α)} (lived : a.live os = .ok a') :
    a'.body.visual = if ∀ o ∈ os, ¬ o.IsUpdate then a.body.visual else .walk := by
  induction os generalizing a with
  | nil =>
    cases lived
    exact (if_pos fun _ mem => absurd mem List.not_mem_nil).symm
  | cons o os ih =>
    obtain ⟨a₁, done, rest⟩ := bind_eq_ok.mp lived
    rw [ih (inMode_operate h done) rest, visual_operate h done]
    by_cases update : o.IsUpdate <;> simp [update]

/-- Every update that ends walks, and the first one alone changes the visual. An update that does
not end found a wander region in which no random point can be drawn. -/
theorem update_walks {spec : AgentSpec α} {entropy : Rng} {a₀ a : Agent α} {os : List (Operation α)}
    (built : spec.build entropy = .ok a₀) (lived : a₀.live os = .ok a) (rival : Rival α)
    (elapsed : α) :
    match a.update rival elapsed with
    | .ok a' => Strode a rival elapsed (∀ o ∈ os, ¬ o.IsUpdate) a'
    | .error e => spec.config.wanderRegion.fault? = some e.fault := by
  have born := inMode_build built
  obtain ⟨m, h⟩ := inMode_live born lived
  have visual := visual_live born lived
  rw [visual_build built] at visual
  have first : (∀ o ∈ os, ¬ o.IsUpdate) ↔ a.body.visual = .idle := by
    rw [visual]
    split <;> simp_all
  have moves := h.update rival elapsed
  cases stepped : m.step spec.config (a.perceived rival elapsed) with
  | error e =>
    rw [stepped] at moves
    have config : (a.perceived rival elapsed).config = spec.config := h.equipped.config
    rw [moves, ← config]
    exact Mode.fault_step stepped
  | ok mv =>
    rw [stepped] at moves
    obtain ⟨a', updated, moved⟩ := moves
    rw [updated]
    exact h.strode rival elapsed stepped moved first

example : (Config.shipped : Config Float).wanderRegion.fault? = none := by
  decide +kernel

/-- An arena so wide that no random point can be drawn in it, and no patrol. -/
def wideSpec : AgentSpec Float :=
  ⟨{ Config.shipped with arenaWidth := 1.7976931348623157e308, wanderMargin := 0.0, stops := [] },
    some ⟨5.0, 5.0⟩, some 4⟩

/-- The check lets the arena pass, and the first update breaks down. -/
theorem wide_arena_breaks_down :
    ∃ a, wideSpec.build 0 = .ok a ∧
      ¬ ∃ a', a.update ⟨⟨1000.0, 1000.0⟩, 0⟩ 0.1 = .ok a' ∧ a'.body.visual = .walk := by
  obtain ⟨a, _, built, lived, broken⟩ := exists_life wideSpec 0 []
    (P := fun a => (a.update ⟨⟨1000.0, 1000.0⟩, 0⟩ 0.1).toOption.isNone = true) (by decide +kernel)
  cases lived
  refine ⟨a, built, ?_⟩
  rintro ⟨a', updated, -⟩
  rw [updated] at broken
  cases broken

theorem edgeChase_walks :
    ∃ a₀ a a', edgeSpec.build 0 = .ok a₀ ∧ a₀.live edgeChase = .ok a ∧
      a.update leadingRival 2.0 = .ok a' ∧ a'.body.visual = .walk ∧
        a'.body.visualChanges = a.body.visualChanges := by
  obtain ⟨a₀, a, built, lived, ends⟩ := exists_life edgeSpec 0 edgeChase
    (P := fun a => (a.update leadingRival 2.0).toOption.any (fun _ => true) = true)
    (by decide +kernel)
  obtain ⟨a', updated, -⟩ := any_toOption_iff.mp ends
  have walks := update_walks built lived leadingRival 2.0
  rw [updated] at walks
  have changes := walks.changes
  rw [if_neg (by decide), List.append_nil] at changes
  exact ⟨a₀, a, a', built, lived, updated, walks.visual, changes⟩

end Agent

end ArenaAgent
