import ArenaAgent.Proofs.Agent.Engagement

/-!
The gait of a mode. A step walks once, or twice if the agent escaped from its rival in between, and
it ends with a walk (`walked_step`); it is the leaf of this walk that it leaves suspended
(`Agent.leftRunning_iff_answered`). A step breaks down only where a random target was to be drawn
and there is none (`fault_step`).
-/
namespace ArenaAgent

variable {α : Type} [Scalar α]

namespace Mode

open ArenaAgent.Tree

def walkLeaves : List Nat :=
  [2, 3, 6, 8, 10]

def walks (deeds : List Nat) : Nat :=
  deeds.countP (· ∈ walkLeaves)

omit [Scalar α] in
theorem walks_leaf_iff (m : Mode) (c : Config α) (i : Nat) :
    (∃ k ∈ (m.tree c).leaves[i]?, k.Walks) ↔ i ∈ walkLeaves := by
  rw [leaves_tree]
  obtain _ | _ | _ | _ | _ | _ | _ | _ | _ | _ | _ | i := i <;> simp [Skill.Walks, walkLeaves]

omit [Scalar α] in
theorem countP_walks (m : Mode) (c : Config α) (visits : List Nat) :
    (visits.filterMap fun i => (m.tree c).leaves[i]?).countP (·.Walks) = walks (deeds visits) := by
  rw [List.countP_filterMap, walks, deeds, List.countP_filter]
  refine List.countP_congr fun i _ => ?_
  have leaf := m.walks_leaf_iff c i
  have deed : i ∈ walkLeaves → 1 < i := by
    simp only [walkLeaves, List.mem_cons, List.not_mem_nil, or_false]
    omega
  cases found : (m.tree c).leaves[i]? <;> simp_all

/-- The leaf at which a tree in this mode is suspended. -/
def leaf? : Mode → Option Nat
  | .clean => none
  | .chase => some 2
  | .flee => some 3
  | .evadeWander => some 6
  | .patrol => some 8
  | .wander => some 10

theorem leaf?_eq_iff {m n : Mode} {i : Nat} (h : n.leaf? = some i) : m.leaf? = some i ↔ m = n := by
  rw [← h]
  cases m <;> cases n <;> decide

/-- A step that walked so often, and last of all. -/
structure Walked (mv : Move Mode α) (n : Nat) : Prop where
  moved : mv.body.moved = true
  visual : mv.body.visual = .walk
  answer : mv.status = .running ∨ mv.status = .success
  count : walks mv.deeds = n
  suspended : mv.mind.leaf? = if mv.status = .running then mv.deeds.getLast? else none

theorem walked_walking {m : Mode} {ds : List Nat} (leaf : m.leaf? = ds.getLast?) (b : Body α)
    (arrival : α) : Walked (m.walking ds (b.walkToTarget arrival)) (walks ds) := by
  have status := b.walkToTarget_status arrival
  refine ⟨rfl, rfl, status, rfl, ?_⟩
  rcases status with running | arrived
  · simp only [walking, running, if_true, leaf]
  · simp only [walking, arrived, reduceCtorEq, if_false, leaf?]

theorem walked_strolls {m : Mode} {c : Config α} {ds : List Nat} {b : Body α} {mv : Move Mode α}
    (goes : Strolls m c ds b mv) : Walked mv (walks ds + 1) := by
  have last {n : Mode} {i : Nat} (own : List Nat) (leaf : n.leaf? = some i)
      (ends : own.getLast? = some i) : n.leaf? = (ds ++ own).getLast? := by
    rw [leaf, List.getLast?_append, ends, Option.some_or]
  have once (own : List Nat) (count : walks own = 1) : walks (ds ++ own) = walks ds + 1 := by
    rw [walks, List.countP_append]
    exact congrArg _ count
  cases goes with
  | patrol =>
    rw [← once [8] rfl]
    exact walked_walking (last [8] rfl rfl) ..
  | nextStop =>
    rw [← once [7, 8] rfl]
    exact walked_walking (last [7, 8] rfl rfl) ..
  | wander =>
    rw [← once [7, 10] rfl]
    exact walked_walking (last [7, 10] rfl rfl) ..
  | random =>
    rw [← once [7, 9, 10] rfl]
    exact walked_walking (last [7, 9, 10] rfl rfl) ..

/-- In this step the agent flees and escapes. -/
def Escapes (m : Mode) (c : Config α) (b : Body α) : Prop :=
  m.Flees c b ∧ (fleeing b).1 = .success

instance (m : Mode) (c : Config α) (b : Body α) : Decidable (m.Escapes c b) :=
  inferInstanceAs (Decidable (_ ∧ _))

theorem walked_fleeing (b : Body α) :
    (fleeing b).2.moved = true ∧ (fleeing b).2.visual = .walk := by
  simp only [fleeing]
  split <;> exact ⟨rfl, rfl⟩

/-- A flight that ends makes room for a second walk. -/
theorem walked_step {m : Mode} {c : Config α} {b : Body α} {mv : Move Mode α}
    (h : m.step c b = .ok mv) : Walked mv (if m.Escapes c b then 2 else 1) := by
  cases steps_of_ok h with
  | chase start decided =>
    rw [if_neg fun escapes => escapes.1.2.1 decided]
    exact walked_walking rfl ..
  | leave going behind =>
    rw [if_neg fun escapes => escapes.1.2.2 going]
    exact walked_walking rfl ..
  | flee flees running =>
    have walked := walked_fleeing b
    rw [if_neg fun escapes => by cases running.symm.trans escapes.2]
    exact ⟨walked.1, walked.2, .inl rfl, rfl, rfl⟩
  | unsettled flees escaped near goes =>
    rw [if_pos ⟨flees, escaped⟩]
    exact walked_strolls goes
  | settled flees escaped far aims =>
    rw [if_pos ⟨flees, escaped⟩]
    exact walked_walking rfl ..
  | stroll free goes =>
    rw [if_neg fun escapes => free escapes.1.1]
    exact walked_strolls goes

/-! ## Breakdowns -/

theorem fault_wanderOff {m : Mode} {c : Config α} {ds : List Nat} {b : Body α} {e : Breakdown α}
    (h : m.wanderOff c ds b = .error e) : b.config.wanderRegion.fault? = some e.fault := by
  rw [wanderOff] at h
  cases aims : b.aimAtRandom with
  | ok aimed =>
    rw [aims] at h
    cases h
  | error fault =>
    rw [aims] at h
    cases h
    exact Rect.sample_eq_error_iff.mp (map_eq_error.mp aims)

theorem fault_stroll {m : Mode} {c : Config α} {ds : List Nat} {b : Body α} {e : Breakdown α}
    (h : m.stroll c ds b = .error e) : b.config.wanderRegion.fault? = some e.fault := by
  rw [stroll] at h
  split at h
  · cases h
  · split at h
    · cases h
    · split at h
      · cases h
      · exact fault_wanderOff h

/-- A step breaks down only at a random target. -/
theorem fault_step {m : Mode} {c : Config α} {b : Body α} {e : Breakdown α}
    (h : m.step c b = .error e) : b.config.wanderRegion.fault? = some e.fault := by
  have config : (fleeing b).2.config = b.config := by
    simp only [fleeing]
    split <;> rfl
  rw [step] at h
  split at h
  · rw [engage] at h
    split at h
    · cases h
    · split at h
      · cases h
      · rw [← config]
        simp only at h
        split at h
        · cases h
        · split at h
          · exact fault_stroll h
          · exact fault_wanderOff (b := { (fleeing b).2 with visual := .idle }) h
  · exact fault_stroll h

/-! ## Escapes -/

theorem replay_questions (m : Mode) (c : Config α) (b : Body α) {ns : List Nat}
    (questions : ∀ n ∈ ns, n = 0 ∨ n = 1) : (replay (m.tree c).leaves ns (.ok b)).2 = .ok b := by
  induction ns with
  | nil => rfl
  | cons n ns ih =>
    have rest := ih fun n mem => questions n (List.mem_cons_of_mem _ mem)
    rcases questions n (List.mem_cons_self ..) with rfl | rfl <;> exact rest

/-- The flight, if there is one, answers to the body that the tick found. -/
theorem escape_mem_answers (m : Mode) (c : Config α) (b : Body α) :
    (3, Status.success) ∈ (m.tree c).answers (.ok b) ↔ m.Escapes c b := by
  have flees := m.flee_mem_visits c b
  by_cases fled : 3 ∈ (tick 0 (m.tree c) (.ok b)).visits
  · obtain ⟨before, after, visits⟩ := List.append_of_mem fled
    have ascending := ascending_visits_tick (m.tree c) 0 (.ok b : Except (Breakdown α) (Body α))
    have chases := m.chase_mem_visits c b
    have questions : ∀ n ∈ before, n = 0 ∨ n = 1 := by
      intro n mem
      rw [visits] at ascending chases
      have early := (List.pairwise_append.mp ascending.1).2.2 n mem 3 (List.mem_cons_self ..)
      have other : n ≠ 2 := by
        rintro rfl
        exact (flees.mp fled).2.1 (chases.mp (List.mem_append_left _ mem)).2
      omega
    rw [mem_answers_iff_of_visits visits rfl, m.replay_questions c b questions,
      Skill.tick_of_perform .flee b (fleeing b).2 (fleeing b).1 rfl, eq_comm]
    exact (and_iff_right (flees.mp fled)).symm
  · refine iff_of_false (fun mem => fled ?_) fun escapes => fled (flees.mpr escapes.1)
    rw [← numbers_answers]
    exact List.mem_map_of_mem mem

/-! ## What is left running -/

omit [Scalar α] in
theorem getLast?_deeds {ns : List Nat} (ascending : ns.Pairwise (· < ·)) (some : deeds ns ≠ []) :
    (deeds ns).getLast? = ns.getLast? := by
  obtain ⟨d, done⟩ := List.exists_mem_of_ne_nil _ some
  obtain ⟨visited, deed⟩ := List.mem_filter.mp done
  rcases List.eq_nil_or_concat ns with rfl | ⟨before, last, same⟩
  · cases visited
  · rw [List.concat_eq_append] at same
    subst same
    have late : 1 < last := by
      rcases List.mem_append.mp visited with early | here
      · have := (List.pairwise_append.mp ascending).2.2 d early last (List.mem_singleton.mpr rfl)
        simp only [decide_eq_true_eq] at deed
        omega
      · cases List.mem_singleton.mp here
        simpa using deed
    have kept : deeds (before ++ [last]) = deeds before ++ [last] := by
      simp [deeds, late]
    rw [kept, List.getLast?_concat, List.getLast?_concat]

end Mode

/-- An update breaks down only where a random target was to be drawn and there is none. -/
theorem Agent.InMode.fault_update {m : Mode} {a : Agent α} (h : a.InMode c m)
    {rival : Rival α} {elapsed : α} {e : Breakdown α} (broken : a.update rival elapsed = .error e) :
    c.wanderRegion.fault? = some e.fault := by
  have moves := h.update rival elapsed
  cases stepped : m.step c (a.perceived rival elapsed) with
  | ok mv =>
    rw [stepped] at moves
    obtain ⟨_, updated, -⟩ := moves
    cases broken.symm.trans updated
  | error e' =>
    rw [stepped] at moves
    cases broken.symm.trans moves
    have fault := Mode.fault_step stepped
    rwa [(h.equipped.of_eq rfl rfl : (a.perceived rival elapsed).Equipped c).config] at fault

/-- An update leaves the agent in a mode other than `clean` exactly if the leaf of this mode
answered `running` in it. -/
theorem Agent.leftRunning_iff_answered {c : Config α} {m : Mode} {a a' : Agent α} (h : a.InMode c m)
    {rival : Rival α} {elapsed : α} (updated : a.update rival elapsed = .ok a') {n : Mode} {i : Nat}
    (leaf : n.leaf? = some i) :
    a'.LeftRunning n ↔ (i, .running) ∈ a.mind.tree.answers (.ok (a.perceived rival elapsed)) := by
  obtain ⟨mv, stepped, moved⟩ := h.update_ok updated
  have walked := Mode.walked_step stepped
  have nonempty : deeds (a.ticked rival elapsed).visits ≠ [] := by
    intro none
    have count := walked.count
    rw [← moved.done, none] at count
    split at count <;> cases count
  have last :
      (deeds (a.ticked rival elapsed).visits).getLast? = (a.ticked rival elapsed).visits.getLast? :=
    Mode.getLast?_deeds (Tree.ascending_visits_tick ..).1 nonempty
  rw [moved.mode.leftRunning_iff, ← Mode.leaf?_eq_iff leaf, walked.suspended,
    Tree.running_mem_answers_iff]
  change _ ↔ (a.ticked rival elapsed).status = _ ∧ (a.ticked rival elapsed).visits.getLast? = _
  rw [← last, moved.status, moved.done]
  by_cases running : mv.status = .running <;> simp [running]

end ArenaAgent
