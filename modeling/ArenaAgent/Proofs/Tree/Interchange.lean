import Mathlib.Data.List.Forall2
import ArenaAgent.Proofs.Tree.Scan
import ArenaAgent.Proofs.Tree.Watching

/-!
Trees that nothing done to them can tell apart. A bisimulation relates trees with the same leaves
whose ticks and resets come to the same and leave related trees behind. Interchangeable trees are
related by some bisimulation. A host sees the same of them in every run
(`observations_of_interchangeable`), and they may be exchanged for each other inside a composite of
any kind (`Interchangeable.child`).
-/
namespace ArenaAgent

namespace Tree

variable {L C : Type}

/-- `p` is `o` with another tree left behind, to which that of `o` is related. -/
def Agree (R : Tree L → Tree L → Prop) (o p : Outcome (Tree L) C) : Prop :=
  ∃ u, R o.next u ∧ p = { o with next := u }

variable [Behavior L C]

structure Bisimulation (R : Tree L → Tree L → Prop) : Prop where
  leaves : ∀ {t u : Tree L}, R t u → t.leaves = u.leaves
  reset : ∀ {t u : Tree L}, R t u → ∀ base : Nat, R (reset base t).1 (reset base u).1
  tick : ∀ {t u : Tree L}, R t u → ∀ (base : Nat) (c : C), Agree R (tick base t c) (tick base u c)

def Interchangeable (t u : Tree L) : Prop :=
  ∃ R, Bisimulation R ∧ R t u

theorem Interchangeable.refl (t : Tree L) : Interchangeable t t := by
  refine ⟨Eq, ⟨?_, ?_, ?_⟩, rfl⟩
  · rintro t _ rfl
    rfl
  · rintro t _ rfl base
    rfl
  · rintro t _ rfl base c
    exact ⟨_, rfl, rfl⟩

/-- Interchangeability is itself a bisimulation, the greatest one. -/
theorem bisimulation_interchangeable : Bisimulation (Interchangeable (L := L)) where
  leaves := fun ⟨_, bisim, h⟩ => bisim.leaves h
  reset := fun ⟨R, bisim, h⟩ base => ⟨R, bisim, bisim.reset h base⟩
  tick := fun ⟨R, bisim, h⟩ base c =>
    have ⟨u, related, whole⟩ := bisim.tick h base c
    ⟨u, ⟨R, bisim, related⟩, whole⟩

/-! ## Composites over related children -/

namespace Bisimulation

variable {R : Tree L → Tree L → Prop} (bisim : Bisimulation R)

include bisim

theorem leafCount {t u : Tree L} (h : R t u) : t.leafCount = u.leafCount := by
  rw [Tree.leafCount, bisim.leaves h, Tree.leafCount]

theorem forestLeaves {ts us : List (Tree L)} (rows : List.Forall₂ R ts us) :
    forestLeaves ts = forestLeaves us := by
  induction rows with
  | nil => rfl
  | cons first _ ih => simp only [Tree.forestLeaves, bisim.leaves first, ih]

theorem resetForest {ts us : List (Tree L)} (rows : List.Forall₂ R ts us) (base : Nat) :
    List.Forall₂ R (resetForest base ts).1 (resetForest base us).1 := by
  induction rows generalizing base with
  | nil => exact .nil
  | cons first _ ih =>
    simp only [Tree.resetForest, bisim.leafCount first]
    exact .cons (bisim.reset first base) (ih _)

theorem resetChild {ts us : List (Tree L)} (rows : List.Forall₂ R ts us) (base index : Nat) :
    List.Forall₂ R (resetChild base index ts).1 (resetChild base index us).1 ∧
      (resetChild base index us).2 = (resetChild base index ts).2 := by
  induction rows generalizing base index with
  | nil => simp only [Tree.resetChild, List.Forall₂.nil, and_self]
  | cons first rest ih =>
    cases index with
    | zero =>
      simp only [Tree.resetChild, resets_reset, bisim.leafCount first, and_true]
      exact .cons (bisim.reset first base) rest
    | succ index =>
      obtain ⟨row, resets⟩ := ih (base + _) index
      simp only [Tree.resetChild, bisim.leafCount first] at row resets ⊢
      exact ⟨.cons first row, resets⟩

theorem abandon {ts us : List (Tree L)} (rows : List.Forall₂ R ts us) (base : Nat)
    (pending : Option Nat) (stopped : Nat) :
    List.Forall₂ R (abandon base pending stopped ts).1 (abandon base pending stopped us).1 ∧
      (abandon base pending stopped us).2 = (abandon base pending stopped ts).2 := by
  simp only [Tree.abandon]
  split
  · split
    · exact bisim.resetChild rows base _
    · exact ⟨rows, rfl⟩
  · exact ⟨rows, rfl⟩

theorem tickForest (kind : Kind) {ts us : List (Tree L)} (rows : List.Forall₂ R ts us)
    (base index skip : Nat) (c : C) :
    let s := tickForest kind base index skip ts c
    ∃ vs, List.Forall₂ R s.children vs ∧
      tickForest kind base index skip us c = { s with children := vs } := by
  induction rows generalizing base index skip c with
  | nil => exact ⟨[], .nil, rfl⟩
  | @cons t u ts us first rest ih =>
    have width := bisim.leafCount first
    cases skip with
    | succ skip =>
      obtain ⟨vs, row, whole⟩ := ih (base + t.leafCount) (index + 1) skip c
      simp only [Tree.tickForest, ← width, whole]
      exact ⟨_, .cons first row, rfl⟩
    | zero =>
      obtain ⟨v, related, own⟩ := bisim.tick first base c
      simp only [Tree.tickForest, own, ← width]
      split
      · obtain ⟨vs, row, whole⟩ :=
          ih (base + t.leafCount) (index + 1) 0 (Tree.tick base t c).context
        simp only [whole]
        exact ⟨_, .cons related row, rfl⟩
      · exact ⟨_, .cons related rest, rfl⟩

end Bisimulation

/-- Composites of one kind and with one pointer over related children. -/
inductive Over (R : Tree L → Tree L → Prop) : Tree L → Tree L → Prop
  | node (kind : Kind) (pointer : Option Nat) {ts us : List (Tree L)}
      (rows : List.Forall₂ R ts us) :
      Over R (.node kind ts pointer) (.node kind us pointer)

theorem Bisimulation.over {R : Tree L → Tree L → Prop} (bisim : Bisimulation R) :
    Bisimulation (Over R) := by
  refine ⟨?_, ?_, ?_⟩
  · rintro _ _ ⟨kind, pointer, rows⟩
    exact bisim.forestLeaves rows
  · rintro _ _ ⟨kind, pointer, rows⟩ base
    exact .node kind none (bisim.resetForest rows base)
  · rintro _ _ @⟨kind, pending, ts, us, rows⟩ base c
    obtain ⟨vs, row, whole⟩ := bisim.tickForest kind rows base 0 (kind.start pending) c
    simp only [Tree.tick, whole]
    cases (Tree.tickForest kind base 0 (kind.start pending) ts c).halt with
    | none => exact ⟨_, .node kind none row, rfl⟩
    | some stop =>
      obtain ⟨left, resets⟩ := bisim.abandon row base pending stop.1
      simp only [resets]
      exact ⟨_, .node kind _ left, rfl⟩

/-- Inside a composite of any kind a child may be exchanged for an interchangeable one. -/
theorem Interchangeable.child {t u : Tree L} (h : Interchangeable t u) (kind : Kind)
    (before after : List (Tree L)) (pointer : Option Nat) :
    Interchangeable (.node kind (before ++ t :: after) pointer)
      (.node kind (before ++ u :: after) pointer) := by
  have same (ts : List (Tree L)) : List.Forall₂ Interchangeable ts ts :=
    List.forall₂_same.mpr fun t _ => .refl t
  exact ⟨_, bisimulation_interchangeable.over,
    .node kind pointer (List.rel_append (same before) (.cons h (same after)))⟩

end Tree

namespace Root

variable {L C : Type} [Behavior L C]

theorem observations_of_interchangeable {t u : Tree L} (h : t.Interchangeable u) (c : C)
    (moves : List (HostMove C)) :
    ((new u).watch c moves).map (·.toObservation) =
      ((new t).watch c moves).map (·.toObservation) := by
  refine map_watch_eq Tree.Interchangeable _ _ (fun r s c move related => ?_) h c moves
  have bisim := Tree.bisimulation_interchangeable (L := L)
  cases move with
  | tick =>
    obtain ⟨v, left, whole⟩ := bisim.tick related 0 c
    simp only [handle, Root.tick, whole, Tree.inspect, bisim.leaves left, and_true]
    exact left
  | reset =>
    have left := bisim.reset related 0
    simp only [handle, Root.reset, Tree.resets_reset, Tree.inspect, bisim.leaves left,
      bisim.leafCount related, and_true]
    exact left
  | change f =>
    simp only [handle, Tree.inspect, bisim.leaves related, and_true]
    exact related

end Root

end ArenaAgent
