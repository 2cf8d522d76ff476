import ArenaAgent.Proofs.Agent.Life
import ArenaAgent.Proofs.Agent.Refinement

/-!
The course of a life in modes. At every moment of its life an agent is in a mode (`inMode_live`),
which the resume pointers of its tree show, and an update is one step of that mode
(`InMode.update`).
-/
namespace ArenaAgent

variable {α : Type}

namespace Agent

/-- The tree of the agent is suspended in mode `m`. -/
def LeftRunning (a : Agent α) (m : Mode) : Prop :=
  a.mind.tree.pointers = m.pointers.toList

instance (a : Agent α) (m : Mode) : Decidable (a.LeftRunning m) :=
  inferInstanceAs (Decidable (_ = _))

structure InMode (c : Config α) (m : Mode) (a : Agent α) : Prop where
  tree : a.mind.tree = m.tree c
  fits : m.Fits c
  equipped : a.body.Equipped c

theorem InMode.leftRunning_iff {c : Config α} {m : Mode} {a : Agent α}
    (h : a.InMode c m) (n : Mode) : a.LeftRunning n ↔ m = n := by
  rw [LeftRunning, h.tree, Mode.tree, Pointers.pointers_tree]
  cases m <;> cases n <;> decide

theorem recordTick_equipped {b : Body α} {c : Config α} (h : b.Equipped c)
    (before : Visual) (tick : Nat) (status : Status) :
    (recordTick before tick status b).Equipped c := by
  obtain ⟨journal, same⟩ := recordTick_body before tick status b
  rw [same]
  exact h.of_eq rfl rfl

variable [Scalar α]

def perceived (a : Agent α) (rival : Rival α) (elapsed : α) : Body α :=
  a.body.perceive rival (passing elapsed)

def ticked (a : Agent α) (rival : Rival α) (elapsed : α) :
    Outcome (Mind α) (Except (Breakdown α) (Body α)) :=
  a.mind.tick (.ok (a.perceived rival elapsed))

theorem update_eq (a : Agent α) (rival : Rival α) (elapsed : α) :
    a.update rival elapsed = (a.ticked rival elapsed).context.map fun body =>
      ⟨recordTick a.body.visual (a.mind.ticks + 1) (a.ticked rival elapsed).status body.rest,
        (a.ticked rival elapsed).next, frameAfter a.frame (passing elapsed)⟩ :=
  rfl

/-- The agent `a'` comes from `a` by an update that is the move `mv`. -/
structure Moved (c : Config α) (a : Agent α) (rival : Rival α) (elapsed : α) (mv : Move Mode α)
    (a' : Agent α) : Prop where
  mode : a'.InMode c mv.mind
  status : (a.ticked rival elapsed).status = mv.status
  answer : a'.answer = some mv.status
  ticks : a'.mind.ticks = a.mind.ticks + 1
  context : (a.ticked rival elapsed).context = .ok mv.body
  body : a'.body = recordTick a.body.visual (a.mind.ticks + 1) mv.status mv.body.rest
  done : deeds (a.ticked rival elapsed).visits = mv.deeds

theorem InMode.update {c : Config α} {m : Mode} {a : Agent α} (h : a.InMode c m) (rival : Rival α)
    (elapsed : α) :
    match m.step c (a.perceived rival elapsed) with
    | .ok mv => ∃ a', a.update rival elapsed = .ok a' ∧ Moved c a rival elapsed mv a'
    | .error e => a.update rival elapsed = .error e := by
  have equipped : (a.perceived rival elapsed).Equipped c := h.equipped.of_eq rfl rfl
  have does := Mode.does_step m c (a.perceived rival elapsed) h.fits equipped
  rw [← h.tree] at does
  cases stepped : m.step c (a.perceived rival elapsed) with
  | error e =>
    rw [stepped] at does
    have broken : (a.ticked rival elapsed).context = .error e := does
    simp only [update_eq, broken, Except.map]
  | ok mv =>
    have kept := Mode.kept_step h.fits equipped stepped
    rw [stepped] at does
    obtain ⟨status, next, context, done⟩ := does
    change (a.ticked rival elapsed).status = mv.status at status
    change (a.ticked rival elapsed).context = .ok mv.body at context
    refine ⟨_, by rw [update_eq, context, Except.map], ?_⟩
    refine ⟨⟨next, kept.1, ?_⟩, status, congrArg some status, rfl, context, ?_, done⟩
    · exact recordTick_equipped kept.2.rest ..
    · rw [status]

theorem InMode.update_ok {c : Config α} {m : Mode} {a a' : Agent α} (h : a.InMode c m)
    {rival : Rival α} {elapsed : α} (updated : a.update rival elapsed = .ok a') :
    ∃ mv, m.step c (a.perceived rival elapsed) = .ok mv ∧ Moved c a rival elapsed mv a' := by
  have moves := h.update rival elapsed
  cases stepped : m.step c (a.perceived rival elapsed) with
  | error e =>
    rw [stepped] at moves
    cases moves.symm.trans updated
  | ok mv =>
    rw [stepped] at moves
    obtain ⟨_, same, moved⟩ := moves
    cases same.symm.trans updated
    exact ⟨mv, rfl, moved⟩

/-- What follows the move does not lead the agent away. -/
theorem Moved.samePlace {c : Config α} {a a' : Agent α} {rival : Rival α} {elapsed : α}
    {mv : Move Mode α} (h : Moved c a rival elapsed mv a') : Body.SamePlace mv.body a'.body := by
  rw [h.body]
  exact (recordTick_place ..).trans mv.body.rest_place

theorem inMode_clean_build {spec : AgentSpec α} {entropy : Rng} {a : Agent α}
    (h : spec.build entropy = .ok a) : a.InMode spec.config .clean := by
  obtain ⟨position, rng, frame, made⟩ := AgentSpec.build_made h
  rw [made]
  exact ⟨rfl, Mode.fits_clean _, (Body.Equipped.spawn spec.config position rng).of_eq rfl rfl⟩

theorem inMode_build {spec : AgentSpec α} {entropy : Rng} {a : Agent α}
    (h : spec.build entropy = .ok a) : ∃ m, a.InMode spec.config m :=
  ⟨.clean, inMode_clean_build h⟩

theorem inMode_operate {c : Config α} {a a' : Agent α} (h : ∃ m, a.InMode c m) {o : Operation α}
    (done : a.operate o = .ok a') : ∃ m, a'.InMode c m := by
  obtain ⟨m, h⟩ := h
  cases o with
  | update rival elapsed =>
    obtain ⟨mv, _, moved⟩ := h.update_ok done
    exact ⟨_, moved.mode⟩
  | collide group =>
    cases done
    refine ⟨m, ?_⟩
    rw [collide]
    split
    · exact ⟨h.tree, h.fits, h.equipped.of_eq rfl rfl⟩
    · exact h
  | draw =>
    cases done
    obtain ⟨journal, same⟩ := a.recordDrawings_body
    exact ⟨m, h.tree, h.fits, same ▸ h.equipped.of_eq rfl rfl⟩
  | clearJournal =>
    cases done
    exact ⟨m, h.tree, h.fits, h.equipped.of_eq rfl rfl⟩

theorem inMode_live {c : Config α} {a a' : Agent α} (h : ∃ m, a.InMode c m)
    {os : List (Operation α)} (lived : a.live os = .ok a') : ∃ m, a'.InMode c m :=
  live_keeps (P := fun a => ∃ m, a.InMode c m) (fun _ _ _ h done => inMode_operate h done) h lived

end Agent

end ArenaAgent
