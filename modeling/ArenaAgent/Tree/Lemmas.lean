import ArenaAgent.Tree.Tick

/-!
What resets and ticks do to the views of a tree. A reset resets every leaf, names each of them once
from the left, and leaves no pointer set; a tick keeps the number of leaves.
-/
namespace ArenaAgent.Tree

variable {L C : Type}

@[simp]
theorem leafCount_leaf (b : L) : (leaf b).leafCount = 1 :=
  rfl

@[simp]
theorem leafCount_node (kind : Kind) (children : List (Tree L)) (pointer : Option Nat) :
    (node kind children pointer).leafCount = (forestLeaves children).length :=
  rfl

@[simp]
theorem length_forestLeaves_cons (t : Tree L) (ts : List (Tree L)) :
    (forestLeaves (t :: ts)).length = t.leafCount + (forestLeaves ts).length := by
  simp [forestLeaves, leafCount]

variable [Behavior L C]

mutual
theorem leaves_reset :
    ∀ (t : Tree L) (base : Nat), (reset base t).1.leaves = t.leaves.map Behavior.reset
  | .leaf _, _ => rfl
  | .node _ children _, base => forestLeaves_resetForest children base

theorem forestLeaves_resetForest : ∀ (ts : List (Tree L)) (base : Nat),
    forestLeaves (resetForest base ts).1 = (forestLeaves ts).map Behavior.reset
  | [], _ => rfl
  | t :: ts, base => by
    simp only [resetForest, forestLeaves, List.map_append, leaves_reset t,
      forestLeaves_resetForest ts]
end

@[simp]
theorem leafCount_reset (t : Tree L) (base : Nat) : (reset base t).1.leafCount = t.leafCount := by
  simp only [leafCount, leaves_reset, List.length_map]

mutual
theorem resets_reset : ∀ (t : Tree L) (base : Nat), (reset base t).2 = List.range' base t.leafCount
  | .leaf _, _ => rfl
  | .node _ children _, base => resets_resetForest children base

theorem resets_resetForest : ∀ (ts : List (Tree L)) (base : Nat),
    (resetForest base ts).2 = List.range' base (forestLeaves ts).length
  | [], _ => rfl
  | t :: ts, base => by
    simp only [resetForest, resets_reset t, resets_resetForest ts, length_forestLeaves_cons,
      List.range'_append_1]
end

mutual
theorem pointers_reset : ∀ (t : Tree L) (base : Nat), ∀ p ∈ (reset base t).1.pointers, p = none
  | .leaf _, _, p, h => by simp [reset, pointers] at h
  | .node _ children _, base, p, h => by
    simp only [reset, pointers, List.mem_cons] at h
    exact h.elim id (forestPointers_resetForest children base p)

theorem forestPointers_resetForest : ∀ (ts : List (Tree L)) (base : Nat),
    ∀ p ∈ forestPointers (resetForest base ts).1, p = none
  | [], _, p, h => by simp [resetForest, forestPointers] at h
  | t :: ts, base, p, h => by
    simp only [resetForest, forestPointers, List.mem_append] at h
    exact h.elim (pointers_reset t base p) (forestPointers_resetForest ts _ p)
end

theorem length_forestLeaves_resetChild (ts : List (Tree L)) (base index : Nat) :
    (forestLeaves (resetChild base index ts).1).length = (forestLeaves ts).length := by
  induction ts generalizing base index with
  | nil => simp [resetChild]
  | cons t ts ih => cases index <;> simp [resetChild, ih]

theorem length_forestLeaves_abandon (base : Nat) (pending : Option Nat) (stopped : Nat)
    (ts : List (Tree L)) :
    (forestLeaves (abandon base pending stopped ts).1).length = (forestLeaves ts).length := by
  simp only [abandon]
  split
  · split
    · exact length_forestLeaves_resetChild ts base _
    · rfl
  · rfl

mutual
theorem leafCount_tick :
    ∀ (t : Tree L) (base : Nat) (c : C), (tick base t c).next.leafCount = t.leafCount
  | .leaf _, _, _ => rfl
  | .node kind children pending, base, c => by
    have kept := length_forestLeaves_tickForest kind children base 0 (kind.start pending) c
    simp only [tick]
    split
    · exact kept
    · simp only [leafCount_node, length_forestLeaves_abandon, kept]

theorem length_forestLeaves_tickForest :
    ∀ (kind : Kind) (ts : List (Tree L)) (base index skip : Nat) (c : C),
    (forestLeaves (tickForest kind base index skip ts c).children).length = (forestLeaves ts).length
  | _, [], _, _, _, _ => rfl
  | kind, t :: ts, base, index, skip + 1, c => by
    simp only [tickForest, length_forestLeaves_cons, length_forestLeaves_tickForest kind ts]
  | kind, t :: ts, base, index, 0, c => by
    simp only [tickForest]
    split
    · simp only [length_forestLeaves_cons, leafCount_tick t, length_forestLeaves_tickForest kind ts]
    · simp only [length_forestLeaves_cons, leafCount_tick t]
end

end ArenaAgent.Tree
