import ArenaAgent.Proofs.Agent.Acts
import ArenaAgent.Proofs.Agent.Engagement
import ArenaAgent.Proofs.Tree.Suspension

/-!
The branches of the tree of decisions. The engagement is asked first in every update. If it fails,
the legs come after it and do at least one act; if it does not, they do nothing, and a leg that was
started is dropped.
-/
namespace ArenaAgent

/-- The children of the root. -/
def Tree.branches {L : Type} : Tree L → List (Tree L)
  | .leaf _ => []
  | .node _ children _ => children

variable {α : Type} [Scalar α]

/-- What the first branch, the engagement, answers in this update; nothing if it breaks down. -/
def Agent.engagementAnswer (a : Agent α) (rival : Rival α) (elapsed : α) : Option Status :=
  a.mind.tree.branches.head?.bind fun t =>
    let o := t.tick 0 (.ok (a.perceived rival elapsed))
    o.context.toOption.map fun _ => o.status

namespace Mode

open ArenaAgent.Tree Pointers

omit [Scalar α] in
theorem idle_leg (aim : Skill α) (c : Config α) : (leg aim c none).Idle :=
  idle_fresh .sequence (allIdle_cons.mpr ⟨idle_leaf _, allIdle_cons.mpr ⟨idle_leaf _, allIdle_nil⟩⟩)

variable (m : Mode) (c : Config α)

/-- The first leaf of the legs: the choice of the next stop, or the walk to it if
that is under way. -/
def firstStep : Nat :=
  if m = .patrol then 8 else 7

theorem visits_patrolLeg (x : Except (Breakdown α) (Body α)) :
    ∃ later, (tick 7 (leg .aimAtNextStop c m.pointers.patrolLeg) x).visits = m.firstStep :: later ∧
      ∀ n ∈ later, 8 ≤ n := by
  rw [leg, visits_tick_node]
  by_cases going : m = .patrol
  · subst going
    refine ⟨[], ?_, fun n mem => absurd mem List.not_mem_nil⟩
    change (tickForest .sequence 8 1 0 [leaf (Skill.walk c.arrivalRadius)] x).visits = [8]
    simp only [tickForest]
    split <;> rfl
  · rw [patrolLeg_eq_none going, firstStep, if_neg going]
    exact visits_tickForest_cons .sequence (leaf Skill.aimAtNextStop)
      [leaf (.walk c.arrivalRadius)] 7 0 x

/-- The legs, asked after the engagement. -/
def legScan (x : Except (Breakdown α) (Body α)) : Scan (Skill α) (Except (Breakdown α) (Body α)) :=
  tickForest .reactive 7 1 0
    [leg .aimAtNextStop c m.pointers.patrolLeg, leg .aimAtRandom c m.pointers.wanderLeg] x

theorem visits_legScan (x : Except (Breakdown α) (Body α)) :
    ∃ later, (m.legScan c x).visits = m.firstStep :: later ∧ ∀ n ∈ later, 8 ≤ n := by
  obtain ⟨others, visits, late⟩ :=
    visits_tickForest_cons .reactive (leg .aimAtNextStop c m.pointers.patrolLeg)
      [leg .aimAtRandom c m.pointers.wanderLeg] 7 1 x
  obtain ⟨own, first, later⟩ := m.visits_patrolLeg c x
  refine ⟨own ++ others, ?_, ?_⟩
  · rw [legScan, visits, first, List.cons_append]
  · intro n mem
    cases List.mem_append.mp mem with
    | inl mem => exact later n mem
    | inr mem => exact Nat.le_trans (Nat.le_succ 8) (late n mem)

/-- The legs are asked exactly if the engagement fails. -/
theorem visits_tree (x : Except (Breakdown α) (Body α)) :
    (tick 0 (m.tree c) x).visits =
      let o := tick 0 (m.engagementTree c) x
      o.visits ++ if o.status = .failure then (m.legScan c o.context).visits else [] := by
  rw [tree_eq, visits_tick_node]
  change (tickForest .reactive 0 0 0 _ x).visits = _
  rw [tickForest]
  by_cases failed : (tick 0 (m.engagementTree c) x).status = .failure
  · simp only [Kind.passing, failed, if_true]
    rfl
  · simp only [Kind.passing, failed, if_false, List.append_nil]

theorem replay_engagement (b : Body α) :
    (replay (m.tree c).leaves (tick 0 (m.engagementTree c) (.ok b)).visits (.ok b)).2 =
      (tick 0 (m.engagementTree c) (.ok b)).context := by
  have first : (m.engagementTree c).leaves <+: (m.tree c).leaves.drop 0 := ⟨_, rfl⟩
  exact (replayed_tick (m.engagementTree c) (m.tree c).leaves 0 (.ok b) first).context

/-- The acts of the engagement. -/
def engagementActs (b : Body α) : List (Act α) :=
  b.acts (m.tree c).leaves (tick 0 (m.engagementTree c) (.ok b)).visits

theorem leaf_of_mem_engagementActs {b : Body α} {x : Act α} (h : x ∈ m.engagementActs c b) :
    x.leaf < 7 ∧ (m.tree c).leaves[x.leaf]? = some x.skill := by
  obtain ⟨visited, found⟩ := leaf_of_mem_acts h
  have ascending := ascending_visits_tick (m.engagementTree c) 0 (.ok b : Except (Breakdown α) _)
  exact ⟨(ascending.2 _ visited).2, found⟩

/-- The questions of a tick are no deeds: they change nothing and do not break down. -/
theorem acts_deeds (ns : List Nat) (b : Body α) :
    (b.acts (m.tree c).leaves ns).filter (1 < ·.leaf) = b.acts (m.tree c).leaves (deeds ns) := by
  induction ns generalizing b with
  | nil => rfl
  | cons n ns ih =>
    match n with
    | 0 | 1 => exact ih b
    | n + 2 =>
      have deed : deeds ((n + 2) :: ns) = (n + 2) :: deeds ns := List.filter_cons_of_pos (by simp)
      rw [deed]
      simp only [Body.acts]
      cases (m.tree c).leaves[n + 2]? with
      | none => exact ih b
      | some k =>
        cases done : k.perform b with
        | ok r => simp [done, ih r.2]
        | error fault => simp [done]

end Mode

namespace Agent

open ArenaAgent.Tree Mode

variable {c : Config α} {m : Mode} {a : Agent α} (h : a.InMode c m) (rival : Rival α) (elapsed : α)

include h

theorem InMode.engagementAnswer_eq_some_iff (status : Status) :
    a.engagementAnswer rival elapsed = some status ↔
      ∃ b, (tick 0 (m.engagementTree c) (.ok (a.perceived rival elapsed))).context = .ok b ∧
        (tick 0 (m.engagementTree c) (.ok (a.perceived rival elapsed))).status = status := by
  have first : a.mind.tree.branches.head? = some (m.engagementTree c) := by
    rw [h.tree]
    rfl
  rw [engagementAnswer, first]
  simp only [Option.bind_some, Option.map_eq_some_iff]
  cases (tick 0 (m.engagementTree c) (.ok (a.perceived rival elapsed))).context <;>
    simp [Except.toOption]

theorem InMode.acts_eq :
    a.acts rival elapsed =
      let b := a.perceived rival elapsed
      let o := tick 0 (m.engagementTree c) (.ok b)
      m.engagementActs c b ++
        match o.context with
        | .ok b' =>
          b'.acts (m.tree c).leaves
            (if o.status = .failure then (m.legScan c o.context).visits else [])
        | .error _ => [] := by
  have visits : (a.ticked rival elapsed).visits =
      (tick 0 a.mind.tree (.ok (a.perceived rival elapsed))).visits := rfl
  rw [acts, visits, h.tree, visits_tree, acts_append, replay_engagement]
  rfl

/-- An engagement that does not fail does all acts of the update. -/
theorem InMode.acts_of_engaged (engaged : a.engagementAnswer rival elapsed ≠ some .failure) :
    a.acts rival elapsed = m.engagementActs c (a.perceived rival elapsed) := by
  rw [h.acts_eq]
  cases ended : (tick 0 (m.engagementTree c) (.ok (a.perceived rival elapsed))).context with
  | error e => simp only [ended, List.append_nil]
  | ok b =>
    have taken :
        (tick 0 (m.engagementTree c) (.ok (a.perceived rival elapsed))).status ≠ .failure :=
      fun failed =>
        engaged ((h.engagementAnswer_eq_some_iff rival elapsed .failure).mpr ⟨b, ended, failed⟩)
    simp only [ended, if_neg taken, Body.acts, List.append_nil]

/-- After an engagement that fails the legs go on with the body that it leaves behind. -/
theorem InMode.acts_of_failed (failed : a.engagementAnswer rival elapsed = some .failure) :
    ∃ (b : Body α) (later : List Nat), (∀ n ∈ later, 8 ≤ n) ∧
      a.acts rival elapsed =
        m.engagementActs c (a.perceived rival elapsed) ++
          b.acts (m.tree c).leaves (m.firstStep :: later) := by
  obtain ⟨b, ended, failed⟩ := (h.engagementAnswer_eq_some_iff rival elapsed .failure).mp failed
  obtain ⟨later, visits, late⟩ := m.visits_legScan c (.ok b)
  refine ⟨b, later, late, ?_⟩
  rw [h.acts_eq]
  simp only [ended, failed, if_true, visits]

/-- An engagement that does not fail gives the answer of the update, and drops a leg
that was started. -/
theorem InMode.update_of_engaged {a' : Agent α}
    (engaged : a.engagementAnswer rival elapsed ≠ some .failure)
    (updated : a.update rival elapsed = .ok a') :
    a'.answer = a.engagementAnswer rival elapsed ∧ AllIdle a'.mind.tree.branches.tail := by
  obtain ⟨b, ended, made⟩ := map_eq_ok.mp updated
  change (tick 0 a.mind.tree (.ok (a.perceived rival elapsed))).context = .ok b at ended
  have answers := h.engagementAnswer_eq_some_iff rival elapsed
  generalize engagement : tick 0 (m.engagementTree c) (.ok (a.perceived rival elapsed)) =
    o at answers
  rw [h.tree] at ended
  -- An engagement that breaks down fails, too, but then the update breaks down with it.
  have taken : o.status ≠ .failure := by
    intro failed
    cases first : o.context with
    | ok b' => exact engaged ((answers .failure).mpr ⟨b', first, failed⟩)
    | error e =>
      rw [context_tick_tree_of_breakdown m c _
        ((congrArg Outcome.context engagement).trans first)] at ended
      cases ended
  obtain ⟨resets, whole⟩ := tick_tree_of_engagement m c _ engagement taken
  rw [whole] at ended
  rw [← h.tree] at whole
  rw [(answers o.status).mpr ⟨b, ended, rfl⟩, ← made]
  have status := congrArg Outcome.status whole
  have tree := congrArg (fun o => o.next.branches.tail) whole
  have idle := allIdle_cons.mpr ⟨idle_leg .aimAtNextStop c,
    allIdle_cons.mpr ⟨idle_leg .aimAtRandom c, allIdle_nil⟩⟩
  exact ⟨congrArg some status, tree ▸ idle⟩

end Agent

end ArenaAgent
