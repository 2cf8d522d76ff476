import ArenaAgent.Proofs.Tree.Blocking
import ArenaAgent.Proofs.Tree.Plan
import ArenaAgent.Proofs.Tree.Recast
import ArenaAgent.Proofs.Tree.Watching

/-!
Sequences and memory selectors are duals. The dual of a tree exchanges the two and lets every leaf
answer `success` for `failure` and the other way round. Whatever a host does, the dual of a tree
without reactive selectors gives the exchanged answers and is otherwise the same to look at
(`dual_looks_alike`).
-/
namespace ArenaAgent

/-- A behaviour that answers `success` where `inner` fails, and `failure` where it succeeds. -/
structure Swapped (L : Type) where
  inner : L

instance Swapped.behavior {L C : Type} [Behavior L C] : Behavior (Swapped L) C where
  tick s c :=
    let r := Behavior.tick s.inner c
    (r.1.swap, ⟨r.2.1⟩, r.2.2)
  reset s := ⟨Behavior.reset s.inner⟩

/-- There are no reactive sequences, so that a reactive selector has no dual and
stays what it is. -/
def Kind.dual : Kind → Kind
  | .sequence => .selector
  | .selector => .sequence
  | .reactive => .reactive

theorem Kind.swap_eq_passing_iff {kind : Kind} (memory : kind ≠ .reactive) (status : Status) :
    status.swap = kind.dual.passing ↔ status = kind.passing := by
  cases kind with
  | sequence | selector => cases status <;> simp [Status.swap, dual, passing]
  | reactive => exact absurd rfl memory

theorem Kind.start_dual {kind : Kind} (memory : kind ≠ .reactive) (pointer : Option Nat) :
    kind.dual.start pointer = kind.start pointer := by
  cases kind with
  | sequence | selector => rfl
  | reactive => exact absurd rfl memory

namespace Tree

variable {L C : Type}

def dual (t : Tree L) : Tree (Swapped L) :=
  t.recast Kind.dual Swapped.mk

theorem Steadfast.recasts {t : Tree L} (steadfast : t.Steadfast) :
    t.Recasts Kind.dual Status.swap := by
  induction steadfast with
  | leaf b => exact .leaf b
  | node memory _ ih => exact .node (Kind.start_dual memory _) (Kind.swap_eq_passing_iff memory) ih

theorem steadfast_node_iff (kind : Kind) (children : List (Tree L)) (pointer : Option Nat) :
    (node kind children pointer).Steadfast ↔ kind ≠ .reactive ∧ ∀ t ∈ children, t.Steadfast := by
  constructor
  · intro steadfast
    cases steadfast with
    | node memory all => exact ⟨memory, all⟩
  · rintro ⟨memory, all⟩
    exact .node memory all

theorem steadfast_plan_iff (t : Tree L) : t.plan.Steadfast ↔ t.Steadfast := by
  induction t with
  | leaf b => exact ⟨fun _ => .leaf b, fun _ => .leaf ()⟩
  | node kind children pointer ih =>
    simp only [plan_node, steadfast_node_iff, List.forall_mem_map]
    exact and_congr_right fun _ => forall₂_congr ih

variable [Behavior L C]

theorem renamesAnswers_swapped : RenamesAnswers (C := C) (Swapped.mk (L := L)) Status.swap where
  running status := by cases status <;> simp [Status.swap]
  tick _ _ := rfl
  reset _ := rfl

theorem Steadfast.tick {t : Tree L} (steadfast : t.Steadfast) (base : Nat) (c : C) :
    (Tree.tick base t c).next.Steadfast := by
  rwa [← steadfast_plan_iff, plan_tick, steadfast_plan_iff]

theorem Steadfast.reset {t : Tree L} (steadfast : t.Steadfast) (base : Nat) :
    (Tree.reset base t).1.Steadfast := by
  rwa [← steadfast_plan_iff, plan_reset, steadfast_plan_iff]

theorem tick_dual {t : Tree L} (steadfast : t.Steadfast) (base : Nat) (c : C) :
    Tree.tick base t.dual c = (Tree.tick base t c).rename .swap dual :=
  tick_recast Kind.dual renamesAnswers_swapped steadfast.recasts base c

theorem reset_dual (t : Tree L) (base : Nat) :
    Tree.reset base t.dual = ((Tree.reset base t).1.dual, (Tree.reset base t).2) :=
  reset_recast Kind.dual renamesAnswers_swapped t base

end Tree

/-- What the dual of a tree shows. -/
def Inspection.mirror {L C : Type} (i : Inspection L C) : Inspection (Swapped L) C :=
  ⟨⟨i.answer.map .swap, i.context, i.visits, i.resets, i.leaves.map Swapped.mk⟩, i.pointers⟩

theorem Tree.inspect_dual {L C : Type} (t : Tree L) (answer : Option Status) (c : C)
    (visits resets : List Nat) :
    t.dual.inspect (answer.map .swap) c visits resets =
      (t.inspect answer c visits resets).mirror := by
  simp only [inspect, Inspection.mirror, dual, leaves_recast, pointers_recast]

namespace Root

variable {L C : Type} [Behavior L C]

theorem handle_dual {r : Root L} {s : Root (Swapped L)} (steadfast : r.tree.Steadfast)
    (dual : s.tree = r.tree.dual) (c : C) (move : HostMove C) :
    let p := r.handle c move
    let q := s.handle c move
    p.1.tree.Steadfast ∧ q.1.tree = p.1.tree.dual ∧ q.2 = p.2.mirror := by
  cases move with
  | tick =>
    simp only [handle, Root.tick, dual, Tree.tick_dual steadfast, Outcome.rename, true_and]
    exact ⟨steadfast.tick 0 c, Tree.inspect_dual _ (some _) ..⟩
  | reset =>
    simp only [handle, Root.reset, dual, Tree.reset_dual, true_and]
    exact ⟨steadfast.reset 0, Tree.inspect_dual _ none ..⟩
  | change f =>
    simp only [handle, dual, true_and]
    exact ⟨steadfast, Tree.inspect_dual _ none ..⟩

/-- Whatever the host does, the dual of a tree without reactive selectors answers the other way
round, and the context, the visits, the resets, the leaves and the pointers are the same. -/
theorem dual_looks_alike (t : Tree L) (steadfast : t.Steadfast) (c : C)
    (moves : List (HostMove C)) :
    (new t.dual).watch c moves = ((new t).watch c moves).map .mirror := by
  have alike :=
    map_watch_eq (fun t u => t.Steadfast ∧ u = t.dual) (·.mirror) id (fun r s c move related => ?_)
      (r := new t) (s := new t.dual) ⟨steadfast, rfl⟩ c moves
  · rwa [List.map_id] at alike
  · obtain ⟨kept, dual, mirrored⟩ := handle_dual related.1 related.2 c move
    exact ⟨⟨kept, dual⟩, congrArg (·.context) mirrored, mirrored⟩

/-- Waits at home while there is nothing to do, and tries that again and again. -/
def patience : Tree (Leaf Nat) :=
  .fresh .selector
    [.fresh .sequence [.leaf (.condition (2 < ·)), .leaf (.replay ⟨.running, [.success], 0, true⟩)],
    .leaf (.action fun c => (.running, c + 1))]

/-- The host interrupts the waiting by a reset. -/
theorem patience_mirrored :
    let moves : List (HostMove Nat) := [.tick, .tick, .change (· + 1), .reset, .tick, .tick]
    let answers : List (Option Status) :=
      [some .running, some .running, none, none, some .running, some .success]
    patience.Steadfast ∧ ((new patience).watch 0 moves).map (·.answer) = answers ∧
      ((new patience.dual).watch 0 moves).map (·.answer) = answers.map (·.map .swap) ∧
      (new patience.dual).watch 0 moves = ((new patience).watch 0 moves).map .mirror := by
  have steadfast : patience.Steadfast := by
    refine .node (by decide)
      (List.forall_mem_cons.mpr ⟨?_, List.forall_mem_singleton.mpr (.leaf _)⟩)
    exact .node (by decide)
      (List.forall_mem_cons.mpr ⟨.leaf _, List.forall_mem_singleton.mpr (.leaf _)⟩)
  exact ⟨steadfast, rfl, rfl, dual_looks_alike patience steadfast 0 _⟩

end Root

end ArenaAgent
