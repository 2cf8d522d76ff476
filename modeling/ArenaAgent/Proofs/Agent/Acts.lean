import ArenaAgent.Proofs.Agent.Course

/-!
What an agent does, act by act. An act is one skill performed at one leaf of the tree. The acts of
an update are those of the leaves that its tick visits, up to a breakdown (`acted_update`), and the
history of a life is the acts of its updates. What each operation keeps of an agent and of its
history so far is kept for life (`history_keeps`).
-/
namespace ArenaAgent

/-- A skill performed at a leaf, with what came of it. -/
structure Act (α : Type) where
  leaf : Nat
  skill : Skill α
  result : Except Fault (Status × Body α)

variable {α : Type}

def Skill.Departs : Skill α → Prop
  | .aimAtNextStop => True
  | _ => False

instance : (k : Skill α) → Decidable k.Departs
  | .aimAtNextStop => .isTrue trivial
  | .rivalNear _ | .ahead | .chase _ | .walk _ | .flee | .settle _ | .aimAtRandom | .aimAt _ =>
    .isFalse id

/-- The target after an act that succeeded. -/
def Act.aim? (x : Act α) : Option (Point α) :=
  match x.result with
  | .ok (.success, b) => some b.target
  | _ => none

theorem Act.result_of_aim? {x : Act α} {goal : Point α} (h : x.aim? = some goal) :
    ∃ b, x.result = .ok (.success, b) ∧ b.target = goal := by
  rw [aim?] at h
  split at h
  · rename_i b result
    exact ⟨b, result, Option.some.inj h⟩
  · cases h

/-- The rival that an update sees. -/
def Operation.rival? : Operation α → Option (Rival α)
  | .update rival _ => some rival
  | .collide _ | .draw | .clearJournal => none

/-- The body that a tick leaves behind; a breakdown leaves it as it was before the fault. -/
def remains : Except (Breakdown α) (Body α) → Body α
  | .ok b => b
  | .error e => e.body

/-- What an agent goes by is the same: its configuration, speed, target and patrol,
and its generator. -/
structure Body.SamePlans (b b' : Body α) : Prop where
  config : b'.config = b.config
  speed : b'.speed = b.speed
  target : b'.target = b.target
  patrol : b'.patrol = b.patrol
  rng : b'.rng = b.rng

namespace Body.SamePlans

theorem refl (b : Body α) : SamePlans b b :=
  ⟨rfl, rfl, rfl, rfl, rfl⟩

theorem rest (b : Body α) : SamePlans b b.rest := by
  obtain ⟨visual, same⟩ := b.rest_body
  rw [same]
  exact ⟨rfl, rfl, rfl, rfl, rfl⟩

theorem recordTick (before : Visual) (tick : Nat) (status : Status) (b : Body α) :
    SamePlans b (Agent.recordTick before tick status b) := by
  obtain ⟨journal, same⟩ := Agent.recordTick_body before tick status b
  rw [same]
  exact ⟨rfl, rfl, rfl, rfl, rfl⟩

theorem trans {b₁ b₂ b₃ : Body α} (h : SamePlans b₁ b₂) (h' : SamePlans b₂ b₃) : SamePlans b₁ b₃ :=
  ⟨h'.config.trans h.config, h'.speed.trans h.speed, h'.target.trans h.target,
    h'.patrol.trans h.patrol, h'.rng.trans h.rng⟩

end Body.SamePlans

variable [Scalar α]

/-- What follows a move does not change the plans. -/
theorem Agent.Moved.samePlans {c : Config α} {a a' : Agent α} {rival : Rival α} {elapsed : α}
    {mv : Move Mode α} (h : Moved c a rival elapsed mv a') : Body.SamePlans mv.body a'.body := by
  rw [h.body]
  exact (Body.SamePlans.rest mv.body).trans (.recordTick ..)

/-- What a skill spares: the speed, the rival and the time that passes, the patrol, unless it
departs, and the generator, unless it draws. -/
structure Body.Spared (k : Skill α) (b b' : Body α) : Prop where
  speed : b'.speed = b.speed
  rival : b'.rival = b.rival
  elapsed : b'.elapsed = b.elapsed
  patrol : ¬ k.Departs → b'.patrol = b.patrol
  rng : ¬ k.Draws → b'.rng = b.rng

theorem Skill.perform_spared {k : Skill α} {b b' : Body α} {status : Status}
    (h : k.perform b = .ok (status, b')) : Body.Spared k b b' := by
  cases k with
  | rivalNear | ahead | aimAt | chase | walk =>
    cases h
    exact ⟨rfl, rfl, rfl, fun _ => rfl, fun _ => rfl⟩
  | flee =>
    cases h
    split <;> exact ⟨rfl, rfl, rfl, fun _ => rfl, fun _ => rfl⟩
  | settle radius =>
    rw [perform] at h
    split at h <;> cases h <;> exact ⟨rfl, rfl, rfl, fun _ => rfl, fun _ => rfl⟩
  | aimAtRandom =>
    obtain ⟨_, _, _, _, same⟩ := Body.aimAtRandom_ok h
    rw [same]
    exact ⟨rfl, rfl, rfl, fun _ => rfl, fun undrawn => absurd trivial undrawn⟩
  | aimAtNextStop =>
    simp only [perform, Body.aimAtNextStop] at h
    split at h <;> cases h <;>
      exact ⟨rfl, rfl, rfl, fun stays => absurd trivial stays, fun _ => rfl⟩

/-- Acts of a body, one after the other, and what becomes of it. A fault is the last act. -/
inductive Acted : Body α → List (Act α) → Body α → Prop
  | nil {b : Body α} : Acted b [] b
  | cons {b b₁ b' : Body α} {leaf : Nat} {k : Skill α} {status : Status} {acts : List (Act α)}
      (done : k.perform b = .ok (status, b₁)) (rest : Acted b₁ acts b') :
      Acted b (⟨leaf, k, .ok (status, b₁)⟩ :: acts) b'
  | fault {b : Body α} {leaf : Nat} {k : Skill α} {fault : Fault}
      (failed : k.perform b = .error fault) : Acted b [⟨leaf, k, .error fault⟩] b

/-- What every skill keeps of a body is kept by all acts. -/
theorem Acted.keeps {β : Type} {f : Body α → β}
    (kept : ∀ {k : Skill α} {b b' : Body α} {status : Status},
      k.perform b = .ok (status, b') → f b' = f b)
    {b b' : Body α} {acts : List (Act α)} (h : Acted b acts b') : f b' = f b := by
  induction h with
  | nil | fault => rfl
  | cons done _ ih => exact ih.trans (kept done)

namespace Body

/-- The acts of the leaves with these numbers. -/
def acts (leaves : List (Skill α)) : List Nat → Body α → List (Act α)
  | [], _ => []
  | n :: ns, b =>
    match leaves[n]? with
    | none => acts leaves ns b
    | some k =>
      ⟨n, k, k.perform b⟩ ::
        match k.perform b with
        | .ok (_, b') => acts leaves ns b'
        | .error _ => []

end Body

theorem acted_acts (leaves : List (Skill α)) (ns : List Nat) (b : Body α) :
    Acted b (b.acts leaves ns) (remains (Tree.replay leaves ns (.ok b)).2) := by
  induction ns generalizing b with
  | nil => exact .nil
  | cons n ns ih =>
    simp only [Body.acts, Tree.replay]
    cases leaves[n]? with
    | none => exact ih b
    | some k =>
      cases done : k.perform b with
      | ok r =>
        simp only [done, Skill.tick_of_perform k b r.2 r.1 done]
        exact .cons done (ih r.2)
      | error fault =>
        simp only [done, Skill.tick_of_fault k b fault done, replay_error]
        exact .fault done

theorem acts_of_perform {leaves : List (Skill α)} {n : Nat} {k : Skill α} {b b' : Body α}
    {status : Status} (leaf : leaves[n]? = some k) (done : k.perform b = .ok (status, b'))
    (ns : List Nat) :
    b.acts leaves (n :: ns) = ⟨n, k, .ok (status, b')⟩ :: b'.acts leaves ns := by
  simp only [Body.acts, leaf, done]

/-- The acts after a part of the leaves go on from what the part leaves behind. -/
theorem acts_append (leaves : List (Skill α)) (ns ms : List Nat) (b : Body α) :
    b.acts leaves (ns ++ ms) = b.acts leaves ns ++
      match (Tree.replay leaves ns (.ok b)).2 with
      | .ok b' => b'.acts leaves ms
      | .error _ => [] := by
  induction ns generalizing b with
  | nil => rfl
  | cons n ns ih =>
    simp only [List.cons_append, Body.acts, Tree.replay]
    cases leaves[n]? with
    | none => exact ih b
    | some k =>
      cases done : k.perform b with
      | ok r =>
        simp only [done, Skill.tick_of_perform k b r.2 r.1 done]
        exact congrArg _ (ih r.2)
      | error fault =>
        simp only [done, Skill.tick_of_fault k b fault done, replay_error]
        rfl

/-- An act belongs to one of the leaves, and its skill is the one there. -/
theorem leaf_of_mem_acts {leaves : List (Skill α)} {ns : List Nat} {b : Body α} {x : Act α}
    (h : x ∈ b.acts leaves ns) : x.leaf ∈ ns ∧ leaves[x.leaf]? = some x.skill := by
  induction ns generalizing b with
  | nil => cases h
  | cons n ns ih =>
    simp only [Body.acts] at h
    cases found : leaves[n]? with
    | none =>
      rw [found] at h
      exact (ih h).imp_left (List.mem_cons_of_mem n)
    | some k =>
      rw [found] at h
      cases List.mem_cons.mp h with
      | inl same =>
        rw [same]
        exact ⟨List.mem_cons_self, found⟩
      | inr later =>
        cases done : k.perform b with
        | ok r =>
          rw [done] at later
          exact (ih later).imp_left (List.mem_cons_of_mem n)
        | error fault =>
          rw [done] at later
          cases later

namespace Agent

/-- The acts of an update. -/
def acts (a : Agent α) (rival : Rival α) (elapsed : α) : List (Act α) :=
  (a.perceived rival elapsed).acts a.mind.tree.leaves (a.ticked rival elapsed).visits

def actsIn (a : Agent α) : Operation α → List (Act α)
  | .update rival elapsed => a.acts rival elapsed
  | .collide _ | .draw | .clearJournal => []

/-- All acts of a life, from the first one on. -/
def history (a : Agent α) : List (Operation α) → List (Act α)
  | [] => []
  | o :: os =>
    a.actsIn o ++
      match a.operate o with
      | .ok a' => a'.history os
      | .error _ => []

theorem acted_update (a : Agent α) (rival : Rival α) (elapsed : α) :
    Acted (a.perceived rival elapsed) (a.acts rival elapsed)
      (remains (a.ticked rival elapsed).context) := by
  have acted :=
    acted_acts a.mind.tree.leaves (a.ticked rival elapsed).visits (a.perceived rival elapsed)
  have ends := a.mind.tree.context_tick (.ok (a.perceived rival elapsed))
  change (Tree.replay a.mind.tree.leaves (a.ticked rival elapsed).visits _).2 = _ at ends
  rw [ends] at acted
  exact acted

/-- An operation that is no update changes the score and the journal alone. -/
theorem operate_aside {a a' : Agent α} {o : Operation α} (h : a.operate o = .ok a')
    (aside : o.rival? = none) :
    ∃ score journal, a' = { a with body := { a.body with score, journal } } := by
  cases o with
  | update rival elapsed => cases aside
  | collide group =>
    cases h
    rw [collide]
    split
    · exact ⟨_, _, rfl⟩
    · exact ⟨a.body.score, a.body.journal, rfl⟩
  | draw =>
    cases h
    obtain ⟨journal, same⟩ := a.recordDrawings_body
    refine ⟨a.body.score, journal, ?_⟩
    show { a with body := a.recordDrawings.body } = _
    rw [same]
  | clearJournal =>
    cases h
    exact ⟨a.body.score, #[], rfl⟩

theorem actsIn_aside (a : Agent α) {o : Operation α} (aside : o.rival? = none) :
    a.actsIn o = [] := by
  cases o with
  | update rival elapsed => cases aside
  | collide | draw | clearJournal => rfl

/-- Outside its acts an operation changes no plans. -/
theorem acted_operate {a a' : Agent α} {o : Operation α} (h : a.operate o = .ok a') :
    ∃ b b', Body.SamePlans a.body b ∧ Acted b (a.actsIn o) b' ∧ Body.SamePlans b' a'.body := by
  by_cases aside : o.rival? = none
  · obtain ⟨score, journal, same⟩ := operate_aside h aside
    rw [a.actsIn_aside aside, same]
    exact ⟨a.body, a.body, .refl _, .nil, ⟨rfl, rfl, rfl, rfl, rfl⟩⟩
  · cases o with
    | update rival elapsed =>
      obtain ⟨b, ended, made⟩ := map_eq_ok.mp h
      have acted := a.acted_update rival elapsed
      change (a.ticked rival elapsed).context = .ok b at ended
      rw [ended] at acted
      refine ⟨a.perceived rival elapsed, b, ⟨rfl, rfl, rfl, rfl, rfl⟩, acted, ?_⟩
      rw [← made]
      exact (Body.SamePlans.rest b).trans (Body.SamePlans.recordTick ..)
    | collide | draw | clearJournal => exact absurd rfl aside

/-- An operation breaks down in its acts alone. -/
theorem acted_operate_of_error {a : Agent α} {o : Operation α} {e : Breakdown α}
    (h : a.operate o = .error e) :
    ∃ b, Body.SamePlans a.body b ∧ Acted b (a.actsIn o) e.body := by
  cases o with
  | update rival elapsed =>
    have acted := a.acted_update rival elapsed
    have broken : (a.ticked rival elapsed).context = .error e := map_eq_error.mp h
    rw [broken] at acted
    exact ⟨a.perceived rival elapsed, ⟨rfl, rfl, rfl, rfl, rfl⟩, acted⟩
  | collide | draw | clearJournal => cases h

variable {P : List (Act α) → Agent α → Prop}
  (kept : ∀ past a a' o, P past a → a.operate o = .ok a' → P (past ++ a.actsIn o) a')

include kept

/-- What every operation keeps of a history and its agent is kept for life; `Q` is what is left of
it after a breakdown. -/
theorem history_of_kept {Q : List (Act α) → Breakdown α → Prop}
    (broken : ∀ past a o e, P past a → a.operate o = .error e → Q (past ++ a.actsIn o) e)
    {past : List (Act α)} {a : Agent α} (holds : P past a) (os : List (Operation α)) :
    match a.live os with
    | .ok a' => P (past ++ a.history os) a'
    | .error e => Q (past ++ a.history os) e := by
  induction os generalizing past a with
  | nil => simpa [live, history] using holds
  | cons o os ih =>
    cases done : a.operate o with
    | ok a' =>
      have later := ih (kept past a a' o holds done)
      simpa [live, history, done, Except.bind] using later
    | error e => simpa [live, history, done, Except.bind] using broken past a o e holds done

theorem history_keeps {past : List (Act α)} {a a' : Agent α} (holds : P past a)
    {os : List (Operation α)} (lived : a.live os = .ok a') : P (past ++ a.history os) a' := by
  have ends := history_of_kept kept (Q := fun _ _ => True) (fun _ _ _ _ _ _ => trivial) holds os
  rwa [lived] at ends

end Agent

end ArenaAgent
