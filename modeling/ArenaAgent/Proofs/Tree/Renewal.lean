import Mathlib.Data.List.Forall2
import ArenaAgent.Proofs.Tree.Duality
import ArenaAgent.Proofs.Tree.Plan

/-!
What a reset brings back. A leaf restores itself if a reset takes each state that it can get into
back to the one in which it was built. A tree of such leaves is after a reset the tree that was
built, whatever was done with it before (`reset_after`), so that no later run tells the two apart.
Only the ticks stay counted.
-/
namespace ArenaAgent

namespace Behavior

variable {L C : Type} [Behavior L C]

/-- What ticks and resets make of a leaf. -/
inductive Descends (b : L) : L → Prop
  | refl : Descends b b
  | tick {b' : L} (h : Descends b b') (c : C) : Descends b (Behavior.tick b' c).2.1
  | reset {b' : L} (h : Descends b b') : Descends b (Behavior.reset b')

theorem Descends.trans {b₁ b₂ b₃ : L} (h : Descends b₁ b₂) (h' : Descends b₂ b₃) :
    Descends b₁ b₃ := by
  induction h' with
  | refl => exact h
  | tick _ c ih => exact ih.tick c
  | reset _ ih => exact ih.reset

/-- A reset takes the leaf back to the state in which it was built. -/
def Restores (b : L) : Prop :=
  ∀ b', Descends b b' → Behavior.reset b' = b

end Behavior

namespace Leaf

variable {C : Type}

def Rewinds : Leaf C → Prop
  | .replay r => r.rewinds = true
  | .action _ | .condition _ => True

theorem restores_of_rewinds {l : Leaf C} (rewinds : l.Rewinds) (start : l.reset = l) :
    Behavior.Restores l := by
  intro b h
  suffices b.Rewinds ∧ b.reset = l from this.2
  induction h with
  | refl => exact ⟨rewinds, start⟩
  | @tick b _ c ih =>
    cases b with
    | action | condition => exact ih
    | replay r =>
      refine ⟨ih.1, ih.2 ▸ ?_⟩
      simp only [Behavior.tick, tick, reset, Replay.reset, Replay.advance,
        show r.rewinds = true from ih.1, if_true]
  | @reset b _ ih =>
    cases b with
    | action | condition => exact ih
    | replay r =>
      have rewinds : r.rewinds = true := ih.1
      refine ⟨?_, ih.2 ▸ ?_⟩
      · simp only [Behavior.reset, reset, Replay.reset, rewinds, if_true, Rewinds]
      · simp only [Behavior.reset, reset, Replay.reset, rewinds, if_true]

end Leaf

namespace Tree

variable {L C : Type}

theorem row_eq_of_plans (ts : List (Tree L))
    (ih : ∀ t ∈ ts, ∀ u : Tree L, t.Idle → u.Idle → t.plan = u.plan → t.leaves = u.leaves → t = u)
    (us : List (Tree L)) (idle : AllIdle ts) (idle' : AllIdle us)
    (plans : ts.map plan = us.map plan) (leaves : forestLeaves ts = forestLeaves us) : ts = us := by
  induction ts generalizing us with
  | nil => exact (List.map_eq_nil_iff.mp plans.symm).symm
  | cons t ts ihts =>
    cases us with
    | nil => cases plans
    | cons u us =>
      simp only [List.map_cons, List.cons.injEq] at plans
      obtain ⟨first, rest⟩ := allIdle_cons.mp idle
      obtain ⟨first', rest'⟩ := allIdle_cons.mp idle'
      have width : t.leaves.length = u.leaves.length := by
        rw [← leafCount, ← leafCount_plan, plans.1, leafCount_plan, leafCount]
      obtain ⟨own, others⟩ := List.append_inj leaves width
      rw [ih t (List.mem_cons_self ..) u first first' plans.1 own,
        ihts (fun s hs => ih s (List.mem_cons_of_mem _ hs)) us rest rest' plans.2 others]

/-- Idle trees of one plan differ in their leaves only. -/
theorem eq_of_plan (t u : Tree L) (idle : t.Idle) (idle' : u.Idle) (plan : t.plan = u.plan)
    (leaves : t.leaves = u.leaves) : t = u := by
  induction t generalizing u with
  | leaf b =>
    cases u with
    | leaf b' => rw [List.head_eq_of_cons_eq leaves]
    | node => cases plan
  | node kind ts pointer ih =>
    cases u with
    | leaf => cases plan
    | node kind' us pointer' =>
      obtain ⟨rfl, allIdle⟩ := (idle_node_iff ..).mp idle
      obtain ⟨rfl, allIdle'⟩ := (idle_node_iff ..).mp idle'
      simp only [plan_node, Tree.node.injEq, and_true] at plan
      rw [plan.1, row_eq_of_plans ts ih us allIdle allIdle' plan.2 leaves]

variable [Behavior L C]

open Behavior

/-! ## Leaves through ticks and resets -/

theorem descend_same (leaves : List L) : List.Forall₂ Descends leaves leaves :=
  List.forall₂_same.mpr fun _ _ => .refl

theorem descend_trans {built met left : List L} (h : List.Forall₂ Descends built met)
    (h' : List.Forall₂ Descends met left) : List.Forall₂ Descends built left := by
  induction h generalizing left with
  | nil => exact h'
  | cons first _ ih =>
    cases h' with
    | cons first' rest' => exact .cons (first.trans first') (ih rest')

theorem descend_reset (t : Tree L) (base : Nat) :
    List.Forall₂ Descends t.leaves (reset base t).1.leaves := by
  rw [leaves_reset, List.forall₂_map_right_iff, List.forall₂_same]
  exact fun b _ => Descends.refl.reset

theorem descend_resetChild (ts : List (Tree L)) (base index : Nat) :
    List.Forall₂ Descends (forestLeaves ts) (forestLeaves (resetChild base index ts).1) := by
  induction ts generalizing base index with
  | nil => simp only [resetChild, descend_same]
  | cons t ts ih =>
    cases index with
    | zero => exact List.rel_append (descend_reset t base) (descend_same _)
    | succ index => exact List.rel_append (descend_same _) (ih ..)

theorem descend_abandon (base : Nat) (pending : Option Nat) (stopped : Nat) (ts : List (Tree L)) :
    List.Forall₂ Descends (forestLeaves ts) (forestLeaves (abandon base pending stopped ts).1) := by
  simp only [abandon]
  split
  · split
    · exact descend_resetChild ts base _
    · exact descend_same _
  · exact descend_same _

theorem descend_tickForest (kind : Kind) (ts : List (Tree L))
    (ih : ∀ t ∈ ts, ∀ (base : Nat) (c : C),
      List.Forall₂ Descends t.leaves (tick base t c).next.leaves)
    (base index skip : Nat) (c : C) :
    List.Forall₂ Descends (forestLeaves ts)
      (forestLeaves (tickForest kind base index skip ts c).children) := by
  induction ts generalizing base index skip c with
  | nil => exact descend_same _
  | cons t ts ihts =>
    have first := ih t (List.mem_cons_self ..) base c
    have rest := fun index skip c =>
      ihts (fun s hs => ih s (List.mem_cons_of_mem _ hs)) (base + t.leafCount) index skip c
    cases skip with
    | succ skip => exact List.rel_append (descend_same _) (rest ..)
    | zero =>
      simp only [tickForest]
      split
      · exact List.rel_append first (rest ..)
      · exact List.rel_append first (descend_same _)

theorem descend_tick (t : Tree L) (base : Nat) (c : C) :
    List.Forall₂ Descends t.leaves (tick base t c).next.leaves := by
  induction t generalizing base c with
  | leaf b => exact .cons (.tick .refl c) .nil
  | node kind children pending ih =>
    have row := descend_tickForest kind children ih base 0 (kind.start pending) c
    simp only [tick]
    split
    · exact row
    · exact descend_trans row (descend_abandon ..)

/-- Where every leaf restores itself, a reset takes all that became of the leaves back. -/
theorem map_reset_of_descend {built left : List L} (descend : List.Forall₂ Descends built left)
    (restores : ∀ b ∈ built, Restores b) : left.map Behavior.reset = built := by
  induction descend with
  | nil => rfl
  | cons first _ ih =>
    obtain ⟨own, others⟩ := List.forall_mem_cons.mp restores
    rw [List.map_cons, own _ first, ih others]

end Tree

namespace Root

variable {L C : Type}

def Call.isTick : Call C → Bool
  | .tick _ => true
  | .reset => false

/-- The record with so many more ticks counted. -/
def later (n : Nat) (r : Root L) : Root L :=
  { r with ticks := r.ticks + n }

variable [Behavior L C]

open Behavior

theorem ticks_after (r : Root L) (calls : List (Call C)) :
    (r.after calls).ticks = r.ticks + calls.countP Call.isTick := by
  induction calls generalizing r with
  | nil => rfl
  | cons x calls ih =>
    refine (ih (r.call x)).trans ?_
    rw [List.countP_cons]
    cases x with
    | tick c => exact Nat.add_right_comm r.ticks 1 (calls.countP Call.isTick)
    | reset => rfl

theorem descend_after (r : Root L) (calls : List (Call C)) :
    List.Forall₂ Descends r.tree.leaves (r.after calls).tree.leaves := by
  induction calls generalizing r with
  | nil => exact Tree.descend_same _
  | cons x calls ih =>
    refine Tree.descend_trans ?_ (ih (r.call x))
    cases x with
    | tick c => exact Tree.descend_tick r.tree 0 c
    | reset => exact Tree.descend_reset r.tree 0

/-- Over leaves that restore themselves a reset brings back the tree that was built. -/
theorem reset_after {t : Tree L} (built : t.Idle) (restores : ∀ b ∈ t.leaves, Restores b)
    (calls : List (Call C)) :
    ((new t).after calls).reset.1 = (new t).later (calls.countP Call.isTick) := by
  have tree : (((new t).after calls).tree.reset 0).1 = t := by
    apply Tree.eq_of_plan _ t (Tree.idle_reset _ 0) built
    · rw [Tree.plan_reset, plan_after, new]
    · rw [Tree.leaves_reset]
      exact Tree.map_reset_of_descend (descend_after (new t) calls) restores
  rw [reset, tree, ticks_after]
  rfl

/-! ## Runs with other ticks counted -/

theorem handle_later (r : Root L) (n : Nat) (c : C) (move : HostMove C) :
    (r.later n).handle c move = ((r.handle c move).1.later n, (r.handle c move).2) := by
  cases move with
  | tick => simp only [handle, tick, later, Nat.add_right_comm]
  | reset | change => rfl

/-- The record after the moves of a run. -/
def through (r : Root L) (c : C) : List (HostMove C) → Root L
  | [] => r
  | move :: moves =>
    let s := r.handle c move
    through s.1 s.2.context moves

theorem watch_later (r : Root L) (n : Nat) (c : C) (moves : List (HostMove C)) :
    (r.later n).watch c moves = r.watch c moves := by
  induction moves generalizing r c with
  | nil => rfl
  | cons move moves ih => simp only [watch, handle_later, ih]

theorem through_later (r : Root L) (n : Nat) (c : C) (moves : List (HostMove C)) :
    (r.later n).through c moves = (r.through c moves).later n := by
  induction moves generalizing r c with
  | nil => rfl
  | cons move moves ih => simp only [through, handle_later, ih]

/-- A reset, after any calls, resets every leaf once and from the left, clears all pointers and the
latest answer, and keeps the ticks counted. If all leaves restore themselves, every run from there
on is that of the tree as it was built, but for the ticks counted before. -/
theorem reset_restores_fresh (t : Tree L) (calls : List (Call C)) :
    let r := (new t).after calls
    let s := r.reset
    (s.2 = List.range t.leafCount ∧ s.1.tree.leaves = r.tree.leaves.map Behavior.reset ∧
      (∀ p ∈ s.1.tree.pointers, p = none) ∧ s.1.last = none ∧ s.1.ticks = r.ticks) ∧
    (t.Idle → (∀ b ∈ t.leaves, Restores b) → ∀ (c : C) (moves : List (HostMove C)),
      s.1.watch c moves = (new t).watch c moves ∧
        let p := s.1.through c moves
        let q := (new t).through c moves
        p.last = q.last ∧ p.ticks = q.ticks + calls.countP Call.isTick) := by
  intro r s
  refine ⟨⟨?_, Tree.leaves_reset r.tree 0, Tree.pointers_reset r.tree 0, rfl, rfl⟩, ?_⟩
  · have leaves : r.tree.leafCount = t.leafCount := by
      rw [← Tree.leafCount_plan, plan_after, Tree.leafCount_plan, new]
    rw [← leaves, List.range_eq_range']
    exact Tree.resets_reset r.tree 0
  · intro built restores c moves
    have fresh : s.1 = (new t).later _ := reset_after built restores calls
    rw [fresh, watch_later, through_later]
    exact ⟨rfl, rfl, rfl⟩

/-- Reset in the middle of its waiting, the tree waits anew. -/
theorem patience_restored :
    let calls : List (Call Nat) := [.tick 3, .tick 0, .reset, .tick 3]
    let moves : List (HostMove Nat) := [.tick, .tick, .change fun _ => 0, .tick]
    let s := ((new patience).after calls).reset.1
    patience.Idle ∧ (∀ b ∈ patience.leaves, Restores b) ∧
      s.watch 3 moves = (new patience).watch 3 moves ∧
      ((new patience).watch 3 moves).map (·.answer) =
        [some .running, some .success, none, some .running] ∧
      (s.through 3 moves).ticks = 6 :=
  have idle : patience.Idle := by
    intro p h
    simpa [patience, Tree.fresh, Tree.pointers, Tree.forestPointers] using h
  have restores : ∀ b ∈ patience.leaves, Restores b := by
    intro b h
    simp only [patience, Tree.fresh, Tree.leaves, Tree.forestLeaves, List.append_nil,
      List.cons_append, List.nil_append, List.mem_cons, List.not_mem_nil, or_false] at h
    rcases h with rfl | rfl | rfl
    · exact Leaf.restores_of_rewinds trivial rfl
    · exact Leaf.restores_of_rewinds rfl rfl
    · exact Leaf.restores_of_rewinds trivial rfl
  have ⟨_, run⟩ := reset_restores_fresh patience [.tick 3, .tick 0, .reset, .tick 3]
  have ⟨same, _, ticks⟩ := run idle restores 3 [.tick, .tick, .change fun _ => 0, .tick]
  ⟨idle, restores, same, rfl, ticks.trans rfl⟩

end Root

end ArenaAgent
