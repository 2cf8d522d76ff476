import ArenaAgent.Proofs.Tree.Calls

/-!
What calls leave as it was. The plan of a tree is what remains of it without the states of its
leaves and without its pointers: the kinds of the composites and their children. No tick and no
reset changes the plan (`plan_after`), so that a tree stays well formed.
-/
namespace ArenaAgent

namespace Tree

variable {L C : Type}

mutual
def plan : Tree L → Tree Unit
  | .leaf _ => .leaf ()
  | .node kind children _ => .node kind (forestPlan children) none

def forestPlan : List (Tree L) → List (Tree Unit)
  | [] => []
  | t :: ts => t.plan :: forestPlan ts
end

theorem forestPlan_eq_map (ts : List (Tree L)) : forestPlan ts = ts.map plan := by
  induction ts with
  | nil => rfl
  | cons t ts ih => rw [forestPlan, ih, List.map_cons]

theorem plan_node (kind : Kind) (children : List (Tree L)) (pointer : Option Nat) :
    (node kind children pointer).plan = .node kind (children.map plan) none := by
  rw [plan, forestPlan_eq_map]

theorem forestWellFormed_iff (ts : List (Tree L)) :
    ForestWellFormed ts ↔ ∀ t ∈ ts, t.WellFormed := by
  induction ts with
  | nil => simp [ForestWellFormed]
  | cons t ts ih => simp [ForestWellFormed, ih]

theorem wellFormed_node_iff (kind : Kind) (children : List (Tree L)) (pointer : Option Nat) :
    (node kind children pointer).WellFormed ↔
      2 ≤ children.length ∧ ∀ t ∈ children, t.WellFormed := by
  rw [WellFormed, forestWellFormed_iff]

theorem wellFormed_plan_iff (t : Tree L) : t.plan.WellFormed ↔ t.WellFormed := by
  induction t with
  | leaf b => exact Iff.rfl
  | node kind children pointer ih =>
    simp only [plan_node, wellFormed_node_iff, List.length_map, List.forall_mem_map]
    exact and_congr_right fun _ => forall₂_congr ih

theorem leafCount_plan (t : Tree L) : t.plan.leafCount = t.leafCount := by
  induction t with
  | leaf b => rfl
  | node kind children pointer ih =>
    rw [plan_node, leafCount_node, leafCount_node]
    induction children with
    | nil => rfl
    | cons t ts ihts =>
      rw [List.map_cons, length_forestLeaves_cons, length_forestLeaves_cons,
        ih t (List.mem_cons_self ..), ihts fun s hs => ih s (List.mem_cons_of_mem _ hs)]

variable [Behavior L C]

mutual
theorem plan_reset : ∀ (t : Tree L) (base : Nat), (reset base t).1.plan = t.plan
  | .leaf _, _ => rfl
  | .node kind children _, base =>
    congrArg (Tree.node kind · none) (forestPlan_resetForest children base)

theorem forestPlan_resetForest : ∀ (ts : List (Tree L)) (base : Nat),
    forestPlan (resetForest base ts).1 = forestPlan ts
  | [], _ => rfl
  | t :: ts, base => by
    simp only [resetForest, forestPlan, plan_reset t, forestPlan_resetForest ts]
end

theorem forestPlan_resetChild (ts : List (Tree L)) (base index : Nat) :
    forestPlan (resetChild base index ts).1 = forestPlan ts := by
  induction ts generalizing base index with
  | nil => simp only [resetChild]
  | cons t ts ih =>
    cases index with
    | zero => simp only [resetChild, forestPlan, plan_reset]
    | succ index => simp only [resetChild, forestPlan, ih]

theorem forestPlan_abandon (base : Nat) (pending : Option Nat) (stopped : Nat)
    (ts : List (Tree L)) : forestPlan (abandon base pending stopped ts).1 = forestPlan ts := by
  simp only [abandon]
  split
  · split
    · exact forestPlan_resetChild ts base _
    · rfl
  · rfl

theorem forestPlan_tickForest (kind : Kind) (ts : List (Tree L))
    (ih : ∀ t ∈ ts, ∀ (base : Nat) (c : C), (tick base t c).next.plan = t.plan)
    (base index skip : Nat) (c : C) :
    forestPlan (tickForest kind base index skip ts c).children = forestPlan ts := by
  induction ts generalizing base index skip c with
  | nil => rfl
  | cons t ts ihts =>
    have first := ih t (List.mem_cons_self ..) base c
    have rest := fun index skip c =>
      ihts (fun s hs => ih s (List.mem_cons_of_mem _ hs)) (base + t.leafCount) index skip c
    cases skip with
    | succ skip => simp only [tickForest, forestPlan, rest]
    | zero =>
      simp only [tickForest]
      split
      · simp only [forestPlan, first, rest]
      · simp only [forestPlan, first]

theorem plan_tick (t : Tree L) (base : Nat) (c : C) : (tick base t c).next.plan = t.plan := by
  induction t generalizing base c with
  | leaf b => rfl
  | node kind children pending ih =>
    have row := forestPlan_tickForest kind children ih base 0 (kind.start pending) c
    simp only [tick]
    split
    · exact congrArg (Tree.node kind · none) row
    · exact congrArg (Tree.node kind · none) ((forestPlan_abandon ..).trans row)

end Tree

namespace Root

variable {L C : Type} [Behavior L C]

theorem plan_after (r : Root L) (calls : List (Call C)) :
    (r.after calls).tree.plan = r.tree.plan := by
  induction calls generalizing r with
  | nil => rfl
  | cons x calls ih =>
    refine (ih (r.call x)).trans ?_
    cases x with
    | tick c => exact Tree.plan_tick r.tree 0 c
    | reset => exact Tree.plan_reset r.tree 0

end Root

end ArenaAgent
