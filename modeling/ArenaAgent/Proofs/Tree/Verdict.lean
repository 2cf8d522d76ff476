import ArenaAgent.Proofs.Tree.Plan
import ArenaAgent.Proofs.Tree.RunningPath

/-!
A tick answers what its last leaf answers. After any calls each composite of a well formed tree
starts at one of its children (`startsInside_after`), so that a tick gets down to a leaf. It goes on
only past children that gave the answer which the composite gives in the end itself, so that nothing
but the last leaf decides.
-/
namespace ArenaAgent

theorem Kind.start_le (kind : Kind) (held : Nat) : kind.start (some held) ≤ held := by
  cases kind with
  | sequence | selector => exact Nat.le_refl held
  | reactive => exact Nat.zero_le held

namespace Tree

variable {L C : Type}

/-- Every composite of the tree starts at one of its children. -/
inductive StartsInside : Tree L → Prop
  | leaf (b : L) : StartsInside (.leaf b)
  | node {kind : Kind} {children : List (Tree L)} {pointer : Option Nat}
      (start : kind.start pointer < children.length) (all : ∀ t ∈ children, StartsInside t) :
      StartsInside (.node kind children pointer)

theorem Idle.startsInside {t : Tree L} (idle : t.Idle) (wellFormed : t.WellFormed) :
    t.StartsInside := by
  induction t with
  | leaf b => exact .leaf b
  | node kind children pointer ih =>
    obtain ⟨rfl, allIdle⟩ := (idle_node_iff ..).mp idle
    obtain ⟨two, all⟩ := (wellFormed_node_iff ..).mp wellFormed
    refine .node ?_ fun t ht => ih t ht (allIdle t ht) (all t ht)
    rw [kind.start_none]
    omega

theorem SuspendedAt.startsInside {base : Nat} {t : Tree L} {path : List Nat} {i : Nat}
    (suspended : SuspendedAt base t path i) (wellFormed : t.WellFormed) : t.StartsInside := by
  induction suspended with
  | leaf base b => exact .leaf b
  | @node base kind before t after path i left held right ih =>
    obtain ⟨_, all⟩ := (wellFormed_node_iff ..).mp wellFormed
    refine .node ?_ fun s hs => ?_
    · have start := kind.start_le before.length
      rw [List.length_append, List.length_cons]
      omega
    · have own := all s hs
      rcases List.mem_append.mp hs with hs | hs
      · exact (left s hs).startsInside own
      · rcases List.mem_cons.mp hs with rfl | hs
        · exact ih own
        · exact (right s hs).startsInside own

variable [Behavior L C]

/-- The last of the leaves `visits`, ticked one after the other from the context `c`,
answers `status`. -/
def LastAnswer (leaves : List L) (visits : List Nat) (c : C) (status : Status) : Prop :=
  ∃ n, (replay leaves visits c).1.getLast? = some (n, status)

theorem LastAnswer.append {leaves : List L} {ns ms : List Nat} {c : C} {status : Status}
    (h : LastAnswer leaves ms (replay leaves ns c).2 status) :
    LastAnswer leaves (ns ++ ms) c status := by
  obtain ⟨n, last⟩ := h
  refine ⟨n, ?_⟩
  rw [replay_append, List.getLast?_append, last, Option.some_or]

/-- A scan that does not leave out all children ends with a leaf that gave the answer
of the composite. -/
theorem lastAnswer_tickForest (kind : Kind) (ts : List (Tree L)) (leaves : List L)
    (ih : ∀ t ∈ ts, ∀ (base : Nat) (c : C), t.leaves <+: leaves.drop base →
      LastAnswer leaves (tick base t c).visits c (tick base t c).status)
    (base index skip : Nat) (c : C) (h : forestLeaves ts <+: leaves.drop base)
    (some_left : skip < ts.length) :
    let s := tickForest kind base index skip ts c
    LastAnswer leaves s.visits c ((s.halt.map Prod.snd).getD kind.passing) := by
  induction ts generalizing base index skip c with
  | nil => exact absurd some_left (Nat.not_lt_zero _)
  | cons t ts ihts =>
    obtain ⟨own, others⟩ := prefix_drop_of_append h
    have first := ih t (List.mem_cons_self ..) base c own
    have rest := fun index skip c =>
      ihts (fun s hs => ih s (List.mem_cons_of_mem _ hs)) (base + t.leafCount) index skip c others
    cases skip with
    | succ skip => exact rest _ skip c (Nat.lt_of_succ_lt_succ some_left)
    | zero =>
      simp only [tickForest]
      by_cases passed : (tick base t c).status = kind.passing
      · rw [if_pos passed]
        cases ts with
        | nil =>
          -- Behind the last child there is nothing to ask, and it answered what the composite
          -- answers.
          simp only [tickForest, List.append_nil, Option.map_none, Option.getD_none]
          rw [← passed]
          exact first
        | cons u us =>
          apply LastAnswer.append
          rw [(replayed_tick t leaves base c own).context]
          exact rest _ 0 _ (Nat.zero_lt_succ _)
      · rw [if_neg passed]
        exact first

theorem lastAnswer_tick {t : Tree L} (starts : t.StartsInside) (leaves : List L)
    (base : Nat) (c : C) (h : t.leaves <+: leaves.drop base) :
    LastAnswer leaves (tick base t c).visits c (tick base t c).status := by
  induction t generalizing base c with
  | leaf b =>
    obtain ⟨rest, e⟩ := h
    have found : leaves[base]? = some b := by
      rw [← Nat.add_zero base, ← List.getElem?_drop, ← e]
      rfl
    exact ⟨base, by simp only [tick, replay, found, List.getLast?_singleton]⟩
  | node kind children pending ih =>
    cases starts with
    | node start all =>
      have scan :=
        lastAnswer_tickForest kind children leaves (fun t ht => ih t ht (all t ht)) base 0
          (kind.start pending) c h start
      cases halted : (tickForest kind base 0 (kind.start pending) children c).halt with
      | none =>
        rw [tick_node_of_pass kind children pending base c rfl halted]
        simp only [halted] at scan
        exact scan
      | some stop =>
        rw [tick_node_of_halt kind children pending base c rfl halted]
        simp only [halted] at scan
        exact scan

end Tree

namespace Root

variable {L C : Type} [Behavior L C]

theorem startsInside_after {t : Tree L} (built : t.Idle) (wellFormed : t.WellFormed)
    (calls : List (Call C)) : ((new t).after calls).tree.StartsInside := by
  have coherent := coherent_after (coherent_new t built) calls
  have own : ((new t).after calls).tree.WellFormed := by
    rwa [← Tree.wellFormed_plan_iff, plan_after, Tree.wellFormed_plan_iff]
  by_cases running : ((new t).after calls).last = some .running
  · obtain ⟨path, i, held⟩ := coherent.suspended running
    exact held.startsInside own
  · exact (coherent.idle running).startsInside own

/-- A tick of a well formed tree, after any calls, visits a leaf, none of them twice and all in
their order from the left, and gives the answer of the last one. -/
theorem tick_answers_as_last_leaf (t : Tree L) (built : t.Idle) (wellFormed : t.WellFormed)
    (calls : List (Call C)) (c : C) :
    let r := (new t).after calls
    let o := r.tick c
    o.visits ≠ [] ∧ o.visits.Nodup ∧ o.visits.Pairwise (· < ·) ∧ (∀ n ∈ o.visits, n < t.leafCount) ∧
      ∃ n, o.visits.getLast? = some n ∧ (r.tree.answers c).getLast? = some (n, o.status) := by
  intro r o
  have ascending := Tree.ascending_visits_tick r.tree 0 c
  obtain ⟨n, last⟩ :=
    Tree.lastAnswer_tick (startsInside_after built wellFormed calls) r.tree.leaves 0 c
      (List.prefix_refl _)
  have visited : o.visits.getLast? = some n := by
    rw [show o.visits = (r.tree.answers c).map Prod.fst from (Tree.numbers_answers r.tree c).symm,
      List.getLast?_map]
    exact congrArg (Option.map Prod.fst) last
  have leaves : r.tree.leafCount = t.leafCount := by
    rw [← Tree.leafCount_plan, plan_after, Tree.leafCount_plan]
    rfl
  refine ⟨?_, ascending.1.imp Nat.ne_of_lt, ascending.1, ?_, n, visited, last⟩
  · intro none
    rw [none] at visited
    cases visited
  · intro m visit
    rw [← leaves, ← Nat.zero_add r.tree.leafCount]
    exact (ascending.2 m visit).2

/-- The guard fails, the sequence goes on at its second child, and that leaf decides. -/
theorem guardedWait_verdict :
    let r := (new guardedWait).after [.tick false]
    let o := r.tick false
    guardedWait.Idle ∧ guardedWait.WellFormed ∧ o.visits = [0, 2] ∧ o.status = .running ∧
      ∃ n, o.visits.getLast? = some n ∧ (r.tree.answers false).getLast? = some (n, o.status) :=
  have wellFormed : guardedWait.WellFormed := by
    simp [guardedWait, Tree.fresh, Tree.WellFormed, Tree.ForestWellFormed]
  have ⟨_, _, _, _, last⟩ :=
    tick_answers_as_last_leaf guardedWait idle_guardedWait wellFormed [.tick false] false
  ⟨idle_guardedWait, wellFormed, rfl, rfl, last⟩

end Root

end ArenaAgent
