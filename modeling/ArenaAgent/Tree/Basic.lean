import ArenaAgent.Tree.Status

/-!
Behaviour trees. Leaves are behaviours of any type; inner nodes are composites that hand the
tick to their children from left to right and remember the child that answered `running`
(the resume pointer).

A tree is a value: its leaves hold their own state, and every composite holds its
pointer. Composites count as well formed with at least two children, and `Tree.composite`
builds only such nodes.
-/
namespace ArenaAgent

/-- What a leaf of type `L` does to a context of type `C`. -/
class Behavior (L : Type) (C : outParam Type) where
  /-- One evaluation: the answer, the leaf afterwards and the context afterwards. -/
  tick : L → C → Status × L × C
  /-- Drops what the leaf carried over from earlier ticks. -/
  reset : L → L

/-- A sequence asks its children until one fails, a selector until one succeeds. While a child is
suspended, both continue there. A reactive selector asks the children before the suspended one
first, and one that does not fail takes over. -/
inductive Kind where
  | sequence
  | selector
  | reactive
  deriving DecidableEq

namespace Kind

/-- The answer of a child on which the composite goes on to the next one. A composite that runs out
of children gives this answer itself. -/
def passing : Kind → Status
  | .sequence => .success
  | .selector | .reactive => .failure

/-- The first child to ask, given the resume pointer. -/
def start : Kind → Option Nat → Nat
  | .reactive, _ => 0
  | .sequence, pointer | .selector, pointer => pointer.getD 0

theorem start_none (kind : Kind) : kind.start none = 0 := by
  cases kind <;> rfl

theorem passing_ne_running (kind : Kind) : kind.passing ≠ .running := by
  cases kind <;> simp [passing]

end Kind

inductive Tree (L : Type) where
  | leaf (behavior : L)
  | node (kind : Kind) (children : List (Tree L)) (pointer : Option Nat)

namespace Tree

variable {L : Type}

structure TooFewChildren where
  kind : Kind

/-- The composite over `children` with nothing suspended. -/
def fresh (kind : Kind) (children : List (Tree L)) : Tree L :=
  .node kind children none

/-- Composites take at least two children; one with a single child is just that child. -/
def composite (kind : Kind) (children : List (Tree L)) : Except TooFewChildren (Tree L) :=
  if 2 ≤ children.length then .ok (fresh kind children) else .error ⟨kind⟩

def TooFewChildren.message : TooFewChildren → String
  | ⟨.sequence⟩ => "Sequence must have at least two children"
  | ⟨.selector⟩ | ⟨.reactive⟩ => "Selector must have at least two children"

mutual
def leaves : Tree L → List L
  | .leaf b => [b]
  | .node _ children _ => forestLeaves children

def forestLeaves : List (Tree L) → List L
  | [] => []
  | t :: ts => t.leaves ++ forestLeaves ts
end

def leafCount (t : Tree L) : Nat :=
  t.leaves.length

mutual
/-- The resume pointers of all composites, a composite before those inside it and the children from
left to right. -/
def pointers : Tree L → List (Option Nat)
  | .leaf _ => []
  | .node _ children pointer => pointer :: forestPointers children

def forestPointers : List (Tree L) → List (Option Nat)
  | [] => []
  | t :: ts => t.pointers ++ forestPointers ts
end

mutual
/-- Every composite has at least two children. -/
def WellFormed : Tree L → Prop
  | .leaf _ => True
  | .node _ children _ => 2 ≤ children.length ∧ ForestWellFormed children

def ForestWellFormed : List (Tree L) → Prop
  | [] => True
  | t :: ts => t.WellFormed ∧ ForestWellFormed ts
end

end Tree

end ArenaAgent
