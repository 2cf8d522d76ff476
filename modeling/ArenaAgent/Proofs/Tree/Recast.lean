import ArenaAgent.Proofs.Tree.Scan

/-!
Trees of one form with other composites. `recast` gives every composite another kind and every leaf
another behaviour; the pointers stay. If the leaves answer as before up to a renaming of the
answers, and the new kinds start at the same children and go on past the renamed answers, then the
recast tree does in a tick what the tree does, and what it leaves behind is the recast of what the
tree leaves behind (`tick_recast`).
-/
namespace ArenaAgent

namespace Outcome

variable {S T C : Type}

/-- The outcome with its answer renamed. -/
def rename (rename : Status → Status) (f : S → T) (o : Outcome S C) : Outcome T C :=
  ⟨rename o.status, f o.next, o.context, o.visits, o.resets⟩

end Outcome

namespace Tree

variable {L M C : Type} (f : Kind → Kind) (g : L → M)

mutual
def recast : Tree L → Tree M
  | .leaf b => .leaf (g b)
  | .node kind children pointer => .node (f kind) (recastForest children) pointer

def recastForest : List (Tree L) → List (Tree M)
  | [] => []
  | t :: ts => recast t :: recastForest ts
end

mutual
theorem leaves_recast : ∀ t : Tree L, (t.recast f g).leaves = t.leaves.map g
  | .leaf _ => rfl
  | .node _ children _ => forestLeaves_recastForest children

theorem forestLeaves_recastForest : ∀ ts : List (Tree L),
    forestLeaves (recastForest f g ts) = (forestLeaves ts).map g
  | [] => rfl
  | t :: ts => by
    simp only [recastForest, forestLeaves, List.map_append, leaves_recast t,
      forestLeaves_recastForest ts]
end

mutual
theorem pointers_recast : ∀ t : Tree L, (t.recast f g).pointers = t.pointers
  | .leaf _ => rfl
  | .node _ children pointer => congrArg (pointer :: ·) (forestPointers_recastForest children)

theorem forestPointers_recastForest : ∀ ts : List (Tree L),
    forestPointers (recastForest f g ts) = forestPointers ts
  | [] => rfl
  | t :: ts => by
    simp only [recastForest, forestPointers, pointers_recast t, forestPointers_recastForest ts]
end

theorem leafCount_recast (t : Tree L) : (t.recast f g).leafCount = t.leafCount := by
  rw [leafCount, leaves_recast, List.length_map, leafCount]

/-- The recast composites start where the composites of the tree do, and pass the
renamed answers. -/
inductive Recasts (rename : Status → Status) : Tree L → Prop
  | leaf (b : L) : Recasts rename (.leaf b)
  | node {kind : Kind} {children : List (Tree L)} {pointer : Option Nat}
      (start : (f kind).start pointer = kind.start pointer)
      (passing : ∀ status, rename status = (f kind).passing ↔ status = kind.passing)
      (all : ∀ t ∈ children, Recasts rename t) : Recasts rename (.node kind children pointer)

variable [Behavior L C] [Behavior M C]

/-- The behaviours `g b` are those of `L` with their answers renamed. -/
structure RenamesAnswers (rename : Status → Status) : Prop where
  running : ∀ status, rename status = .running ↔ status = .running
  tick : ∀ (b : L) (c : C), Behavior.tick (g b) c =
    (rename (Behavior.tick b c).1, g (Behavior.tick b c).2.1, (Behavior.tick b c).2.2)
  reset : ∀ b : L, Behavior.reset (g b) = g (Behavior.reset b)

variable {g} {rename : Status → Status}

theorem resetForest_recastForest (ts : List (Tree L))
    (ih : ∀ t ∈ ts, ∀ base : Nat,
      reset base (t.recast f g) = ((reset base t).1.recast f g, (reset base t).2)) (base : Nat) :
    resetForest base (recastForest f g ts) =
      (recastForest f g (resetForest base ts).1, (resetForest base ts).2) := by
  induction ts generalizing base with
  | nil => rfl
  | cons t ts ihts =>
    have first := ih t (List.mem_cons_self ..) base
    have rest := ihts fun s hs => ih s (List.mem_cons_of_mem _ hs)
    simp only [recastForest, resetForest, leafCount_recast, first, rest]

theorem tickForest_recastForest (kind : Kind)
    (passing : ∀ status, rename status = (f kind).passing ↔ status = kind.passing)
    (ts : List (Tree L)) (ih : ∀ t ∈ ts, ∀ (base : Nat) (c : C),
      tick base (t.recast f g) c = (tick base t c).rename rename (recast f g))
    (base index skip : Nat) (c : C) :
    tickForest (f kind) base index skip (recastForest f g ts) c =
      let s := tickForest kind base index skip ts c
      ⟨recastForest f g s.children, s.halt.map fun stop => (stop.1, rename stop.2),
        s.context, s.visits, s.resets⟩ := by
  induction ts generalizing base index skip c with
  | nil => rfl
  | cons t ts ihts =>
    have first := ih t (List.mem_cons_self ..) base c
    have rest := ihts fun s hs => ih s (List.mem_cons_of_mem _ hs)
    cases skip with
    | succ skip => simp only [recastForest, tickForest, leafCount_recast, rest]
    | zero =>
      simp only [recastForest, tickForest, leafCount_recast, first, Outcome.rename, passing, rest]
      split
      · rfl
      · rfl

section Renaming

variable (h : RenamesAnswers (C := C) g rename)

include h

theorem reset_recast (t : Tree L) (base : Nat) :
    reset base (t.recast f g) = ((reset base t).1.recast f g, (reset base t).2) := by
  induction t generalizing base with
  | leaf b => simp only [recast, reset, h.reset]
  | node kind children pointer ih =>
    simp only [recast, reset, resetForest_recastForest f children ih]

theorem resetChild_recastForest (ts : List (Tree L)) (base index : Nat) :
    resetChild base index (recastForest f g ts) =
      (recastForest f g (resetChild base index ts).1, (resetChild base index ts).2) := by
  induction ts generalizing base index with
  | nil => simp only [recastForest, resetChild]
  | cons t ts ih =>
    cases index with
    | zero => simp only [recastForest, resetChild, reset_recast f h]
    | succ index => simp only [recastForest, resetChild, ih, leafCount_recast]

theorem abandon_recastForest (base : Nat) (pending : Option Nat) (stopped : Nat)
    (ts : List (Tree L)) :
    abandon base pending stopped (recastForest f g ts) =
      (recastForest f g (abandon base pending stopped ts).1,
        (abandon base pending stopped ts).2) := by
  simp only [abandon]
  split
  · split
    · exact resetChild_recastForest f h ts base _
    · rfl
  · rfl

/-- A tick of the recast tree is the tick of the tree with its answer renamed. -/
theorem tick_recast {t : Tree L} (recasts : t.Recasts f rename) (base : Nat) (c : C) :
    tick base (t.recast f g) c = (tick base t c).rename rename (recast f g) := by
  induction t generalizing base c with
  | leaf b => simp only [recast, tick, h.tick, Outcome.rename]
  | node kind children pending ih =>
    cases recasts with
    | node start passing all =>
      have row :=
        tickForest_recastForest f kind passing children (fun t ht => ih t ht (all t ht)) base 0
          (kind.start pending) c
      simp only [recast, tick, start, row]
      cases (tickForest kind base 0 (kind.start pending) children c).halt with
      | none => simp only [Option.map_none, Outcome.rename, recast, (passing kind.passing).mpr rfl]
      | some stop =>
        simp only [Option.map_some, Outcome.rename, recast, h.running, abandon_recastForest f h]

end Renaming

end Tree

end ArenaAgent
