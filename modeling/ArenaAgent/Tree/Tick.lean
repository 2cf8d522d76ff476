import ArenaAgent.Tree.Basic

/-!
Evaluation of a behaviour tree. A tick is traced: besides the answer, the tree and the context
afterwards it tells which leaves were ticked and which were reset, by their position from the left.

`Tree.tick` asks the children of a composite from the resume pointer on (a reactive selector from
the first one on), stops at the first child that does not pass, and keeps a pointer exactly when
that child is suspended. A child that takes over from a suspended one to its right abandons it: the
suspended child is reset in the same tick.
-/
namespace ArenaAgent

/-- What one tick of a tree, or of a tree's host, gave. -/
structure Outcome (T C : Type) where
  status : Status
  next : T
  context : C
  /-- The leaves ticked, in the order in which they were. -/
  visits : List Nat
  /-- The leaves reset, in the order in which they were. -/
  resets : List Nat

/-- What asking a row of children gave. -/
structure Scan (L C : Type) where
  children : List (Tree L)
  /-- The child that did not pass, and its answer. -/
  halt : Option (Nat × Status)
  context : C
  visits : List Nat
  resets : List Nat

namespace Tree

variable {L C : Type} [Behavior L C]

mutual
/-- Drops all resume pointers and resets all leaves; the leaves of `t` are numbered
from `base` on. -/
def reset (base : Nat) : Tree L → Tree L × List Nat
  | .leaf b => (.leaf (Behavior.reset b), [base])
  | .node kind children _ =>
    let r := resetForest base children
    (.node kind r.1 none, r.2)

def resetForest (base : Nat) : List (Tree L) → List (Tree L) × List Nat
  | [] => ([], [])
  | t :: ts =>
    let r := reset base t
    let rs := resetForest (base + t.leafCount) ts
    (r.1 :: rs.1, r.2 ++ rs.2)
end

/-- Resets the child at `index` alone. -/
def resetChild (base : Nat) : Nat → List (Tree L) → List (Tree L) × List Nat
  | _, [] => ([], [])
  | 0, t :: ts =>
    let r := reset base t
    (r.1 :: ts, r.2)
  | index + 1, t :: ts =>
    let r := resetChild (base + t.leafCount) index ts
    (t :: r.1, r.2)

/-- A suspended child to the right of the child that stopped the scan is abandoned. -/
def abandon (base : Nat) (pending : Option Nat) (stopped : Nat) (children : List (Tree L)) :
    List (Tree L) × List Nat :=
  match pending with
  | some p => if stopped < p then resetChild base p children else (children, [])
  | none => (children, [])

mutual
/-- One evaluation of a tree whose leaves are numbered from `base` on. -/
def tick (base : Nat) : Tree L → C → Outcome (Tree L) C
  | .leaf b, c =>
    let r := Behavior.tick b c
    ⟨r.1, .leaf r.2.1, r.2.2, [base], []⟩
  | .node kind children pending, c =>
    let scan := tickForest kind base 0 (kind.start pending) children c
    match scan.halt with
    | none => ⟨kind.passing, .node kind scan.children none, scan.context, scan.visits, scan.resets⟩
    | some (stopped, status) =>
      let r := abandon base pending stopped scan.children
      ⟨status, .node kind r.1 (if status = .running then some stopped else none), scan.context,
        scan.visits, scan.resets ++ r.2⟩

/-- Asks the children of a composite after leaving out `skip` of them; the first one in the row is
the child number `index`. -/
def tickForest (kind : Kind) (base index skip : Nat) : List (Tree L) → C → Scan L C
  | [], c => ⟨[], none, c, [], []⟩
  | t :: ts, c =>
    match skip with
    | skip + 1 =>
      let rest := tickForest kind (base + t.leafCount) (index + 1) skip ts c
      { rest with children := t :: rest.children }
    | 0 =>
      let first := tick base t c
      if first.status = kind.passing then
        let rest := tickForest kind (base + t.leafCount) (index + 1) 0 ts first.context
        ⟨first.next :: rest.children, rest.halt, rest.context, first.visits ++ rest.visits,
          first.resets ++ rest.resets⟩
      else
        ⟨first.next :: ts, some (index, first.status), first.context, first.visits, first.resets⟩
end

end Tree

/-- A tree with the record that its host keeps: how often it was ticked, and the latest answer since
it was built or reset. -/
structure Root (L : Type) where
  tree : Tree L
  ticks : Nat
  last : Option Status

namespace Root

variable {L C : Type} [Behavior L C]

/-- A host record for a tree that was not ticked yet. -/
def new (tree : Tree L) : Root L :=
  ⟨tree, 0, none⟩

def tick (r : Root L) (c : C) : Outcome (Root L) C :=
  let o := r.tree.tick 0 c
  ⟨o.status, ⟨o.next, r.ticks + 1, some o.status⟩, o.context, o.visits, o.resets⟩

/-- Drops what is suspended; the ticks stay counted. The second component is the leaves reset. -/
def reset (r : Root L) : Root L × List Nat :=
  let t := r.tree.reset 0
  (⟨t.1, r.ticks, none⟩, t.2)

end Root

end ArenaAgent
