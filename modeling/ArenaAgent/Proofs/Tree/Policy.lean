import ArenaAgent.Proofs.Tree.Recast
import ArenaAgent.Proofs.Tree.RunningPath
import ArenaAgent.Proofs.Tree.Watching

/-!
Memory and reactive selectors. They differ in how they treat a suspended child, so that trees in
which no pointer is set do the same in a tick whichever of the two their selectors are, and remain
the same until a tick answers `running` (`policy_matters_when_suspended`).
-/
namespace ArenaAgent

/-- The kind with its selectors remembering. -/
def Kind.remembering : Kind → Kind
  | .reactive => .selector
  | kind => kind

theorem Kind.passing_remembering (kind : Kind) : kind.remembering.passing = kind.passing := by
  cases kind <;> rfl

namespace Tree

variable {L C : Type}

/-- The tree with memory selectors in the place of its reactive ones. Two trees for which it is the
same differ in the policies of their selectors only. -/
def remembering (t : Tree L) : Tree L :=
  t.recast Kind.remembering id

theorem leaves_remembering (t : Tree L) : t.remembering.leaves = t.leaves := by
  rw [remembering, leaves_recast, List.map_id]

theorem pointers_remembering (t : Tree L) : t.remembering.pointers = t.pointers :=
  pointers_recast ..

theorem idle_remembering_iff (t : Tree L) : t.remembering.Idle ↔ t.Idle := by
  rw [Idle, pointers_remembering, Idle]

theorem Idle.recasts {t : Tree L} (idle : t.Idle) : t.Recasts Kind.remembering id := by
  induction t with
  | leaf b => exact .leaf b
  | node kind children pointer ih =>
    obtain ⟨rfl, allIdle⟩ := (idle_node_iff ..).mp idle
    refine .node ?_ (fun status => ?_) fun t ht => ih t ht (allIdle t ht)
    · rw [Kind.start_none, Kind.start_none]
    · rw [Kind.passing_remembering, id]

variable [Behavior L C]

theorem renamesAnswers_id : RenamesAnswers (C := C) (id : L → L) id where
  running _ := Iff.rfl
  tick _ _ := rfl
  reset _ := rfl

theorem tick_remembering {t : Tree L} (idle : t.Idle) (base : Nat) (c : C) :
    tick base t.remembering c = (tick base t c).rename id remembering :=
  tick_recast Kind.remembering renamesAnswers_id idle.recasts base c

theorem reset_remembering (t : Tree L) (base : Nat) :
    reset base t.remembering = ((reset base t).1.remembering, (reset base t).2) :=
  reset_recast Kind.remembering renamesAnswers_id t base

/-! ## Trees that differ in policies only -/

section Same

variable {t u : Tree L} (same : t.remembering = u.remembering)

include same

omit [Behavior L C] in
theorem idle_of_same (idle : t.Idle) : u.Idle := by
  rwa [← idle_remembering_iff, ← same, idle_remembering_iff]

omit [Behavior L C] in
theorem inspect_of_same (answer : Option Status) (c : C) (visits resets : List Nat) :
    u.inspect answer c visits resets = t.inspect answer c visits resets := by
  rw [inspect, inspect, ← leaves_remembering u, ← pointers_remembering u, ← same,
    leaves_remembering, pointers_remembering]

/-- From the same context, idle trees that differ in policies only do the same. -/
theorem tick_of_same (idle : t.Idle) (base : Nat) (c : C) :
    let o := tick base t c
    let p := tick base u c
    p.status = o.status ∧ p.context = o.context ∧ p.visits = o.visits ∧ p.resets = o.resets ∧
      o.next.remembering = p.next.remembering := by
  have whole : (tick base u c).rename id remembering = (tick base t c).rename id remembering := by
    rw [← tick_remembering (idle_of_same same idle), ← same, tick_remembering idle]
  simp only [Outcome.rename, Outcome.mk.injEq, id] at whole
  obtain ⟨status, next, context, visits, resets⟩ := whole
  exact ⟨status, context, visits, resets, next.symm⟩

theorem reset_of_same (base : Nat) :
    (reset base t).1.remembering = (reset base u).1.remembering ∧
      (reset base u).2 = (reset base t).2 := by
  have whole : ((reset base u).1.remembering, (reset base u).2) =
      ((reset base t).1.remembering, (reset base t).2) := by
    rw [← reset_remembering, ← same, reset_remembering]
  obtain ⟨next, resets⟩ := Prod.mk.inj whole
  exact ⟨next.symm, resets⟩

end Same

end Tree

namespace Root

variable {L C : Type} [Behavior L C]

theorem handle_of_same {r s : Root L} (same : r.tree.remembering = s.tree.remembering)
    (idle : r.tree.Idle) (c : C) (move : HostMove C) :
    let p := r.handle c move
    let q := s.handle c move
    q.2 = p.2 ∧ p.1.tree.remembering = q.1.tree.remembering ∧
      (p.2.answer ≠ some .running → p.1.tree.Idle) := by
  cases move with
  | tick =>
    obtain ⟨status, context, visits, resets, next⟩ := Tree.tick_of_same same idle 0 c
    have settled := Tree.settled_tick_of_idle r.tree 0 c idle
    simp only [handle, Root.tick, status, context, visits, resets]
    exact ⟨Tree.inspect_of_same next .., next, fun resolved => settled.idle fun e =>
      resolved (congrArg some e)⟩
  | reset =>
    obtain ⟨next, resets⟩ := Tree.reset_of_same same 0
    simp only [handle, Root.reset, resets]
    exact ⟨Tree.inspect_of_same next .., next, fun _ => Tree.idle_reset r.tree 0⟩
  | change f => exact ⟨Tree.inspect_of_same same .., same, fun _ => idle⟩

theorem watch_of_same {r s : Root L} (same : r.tree.remembering = s.tree.remembering)
    (idle : r.tree.Idle) (c : C) (earlier : List (HostMove C)) (move : HostMove C)
    (resolved : ∀ i ∈ r.watch c earlier, i.answer ≠ some .running) :
    s.watch c (earlier ++ [move]) = r.watch c (earlier ++ [move]) := by
  induction earlier generalizing r s c with
  | nil => simp only [List.nil_append, watch, (handle_of_same same idle c move).1]
  | cons first earlier ih =>
    obtain ⟨seen, same', idle'⟩ := handle_of_same same idle c first
    obtain ⟨now, later⟩ := List.forall_mem_cons.mp resolved
    simp only [List.cons_append, watch, seen, ih same' (idle' now) _ later]

/-- Trees in which no pointer is set and which differ in the policies of their selectors only do the
same in a tick, and reset nothing. In a run they remain the same up to the first tick that answers
`running`, and in this tick too. -/
theorem policy_matters_when_suspended {t u : Tree L} (same : t.remembering = u.remembering)
    (idle : t.Idle) (c : C) :
    (∀ base : Nat, let o := t.tick base c
      let p := u.tick base c
      p.status = o.status ∧ p.context = o.context ∧ p.visits = o.visits ∧ o.resets = [] ∧
        p.resets = [] ∧ p.next.leaves = o.next.leaves ∧ p.next.pointers = o.next.pointers) ∧
    ∀ (earlier : List (HostMove C)) (move : HostMove C),
      (∀ i ∈ (new t).watch c earlier, i.answer ≠ some .running) →
        (new u).watch c (earlier ++ [move]) = (new t).watch c (earlier ++ [move]) := by
  refine ⟨fun base => ?_,
    fun earlier move => watch_of_same (r := new t) (s := new u) same idle c earlier move⟩
  obtain ⟨status, context, visits, resets, next⟩ := Tree.tick_of_same same idle base c
  have none := Tree.resets_tick_of_idle t base c idle
  refine ⟨status, context, visits, none, resets.trans none, ?_, ?_⟩
  · rw [← Tree.leaves_remembering, ← next, Tree.leaves_remembering]
  · rw [← Tree.pointers_remembering, ← next, Tree.pointers_remembering]

/-- The guarded sequence waits under either policy. When the guard comes to hold, only the reactive
selector lets it take over. -/
theorem guardedWait_policies :
    let u : Tree (Leaf Bool) := guardedWait.remembering
    let earlier : List (HostMove Bool) := [.tick, .change fun _ => false]
    let later : List (HostMove Bool) := earlier ++ [.tick] ++ [.change not, .tick]
    guardedWait.remembering = u.remembering ∧ guardedWait.Idle ∧
      (∀ i ∈ (new guardedWait).watch true earlier, i.answer ≠ some .running) ∧
      (new u).watch true (earlier ++ [.tick]) = (new guardedWait).watch true (earlier ++ [.tick]) ∧
      ((new guardedWait).watch true later).map (·.visits) = [[0], [], [0, 1, 2], [], [0]] ∧
      ((new u).watch true later).map (·.visits) = [[0], [], [0, 1, 2], [], [2]] :=
  have resolved : ∀ i ∈ (new guardedWait).watch true [.tick, .change fun _ => false],
      i.answer ≠ some .running :=
    List.forall_mem_cons.mpr ⟨nofun, List.forall_mem_singleton.mpr nofun⟩
  have same : guardedWait.remembering = guardedWait.remembering.remembering := rfl
  ⟨same, idle_guardedWait, resolved,
    (policy_matters_when_suspended same idle_guardedWait true).2 _ .tick resolved, rfl, rfl⟩

end Root

end ArenaAgent
