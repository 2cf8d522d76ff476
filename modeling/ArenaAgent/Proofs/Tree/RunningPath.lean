import ArenaAgent.Proofs.Tree.Calls
import ArenaAgent.Tree.Leaf

/-!
The resume pointers of a tree seen from its root. Subtrees are found by their paths (`locate`).
Whatever the host called, the pointers that are set lead from the root down to the leaf that
answered `running` in the latest tick, and none is set if that tick resolved or nothing was ticked
since the tree was built or reset.
-/
namespace ArenaAgent

namespace Tree

variable {L C : Type}

/-- The subtree at a path, with the number of its first leaf. A path names a child of every
composite on the way down; the leaves of `t` are numbered from `base` on. -/
def locate (base : Nat) (t : Tree L) : List Nat → Option (Nat × Tree L)
  | [] => some (base, t)
  | j :: path =>
    match t with
    | .leaf _ => none
    | .node _ children _ =>
      match children[j]? with
      | some s => locate (base + (forestLeaves (children.take j)).length) s path
      | none => none

theorem locate_append (base : Nat) (t : Tree L) (p q : List Nat) :
    locate base t (p ++ q) = (locate base t p).bind fun s => locate s.1 s.2 q := by
  induction p generalizing base t with
  | nil => rfl
  | cons j p ih =>
    cases t with
    | leaf b => rfl
    | node kind children pointer =>
      simp only [List.cons_append, locate]
      cases children[j]? with
      | none => rfl
      | some s => exact ih _ s

theorem locate_child (base : Nat) (kind : Kind) (before : List (Tree L)) (t : Tree L)
    (after : List (Tree L)) (pointer : Option Nat) (path : List Nat) :
    locate base (.node kind (before ++ t :: after) pointer) (before.length :: path) =
      locate (base + (forestLeaves before).length) t path := by
  simp only [locate, List.getElem?_append_right (Nat.le_refl _), Nat.sub_self,
    List.getElem?_cons_zero, List.take_left]

/-- The pointers that are set in `t` are those on the way to leaf number `i`, which is at `path`. -/
structure RunningPath (t : Tree L) (path : List Nat) (i : Nat) : Prop where
  leads_to_leaf : ∃ b, t.locate 0 path = some (i, .leaf b)
  /-- A composite points to a child exactly if the path goes through that child. -/
  pointer_iff : ∀ q n kind children pointer j,
    t.locate 0 q = some (n, .node kind children pointer) →
    (pointer = some j ↔ q ++ [j] <+: path)

theorem Idle.pointer_eq_none {t : Tree L} (h : t.Idle) {base : Nat} {q : List Nat}
    {n : Nat} {kind : Kind} {children : List (Tree L)} {pointer : Option Nat}
    (found : locate base t q = some (n, .node kind children pointer)) : pointer = none := by
  induction q generalizing base t with
  | nil =>
    cases found
    exact ((idle_node_iff ..).mp h).1
  | cons j q ih =>
    cases t with
    | leaf b => cases found
    | node kind' siblings pointer' =>
      simp only [locate] at found
      split at found
      · rename_i s at_j
        exact ih (((idle_node_iff ..).mp h).2 s (List.mem_of_getElem? at_j)) found
      · cases found

theorem SuspendedAt.locate_path {base : Nat} {t : Tree L} {path : List Nat} {i : Nat}
    (h : SuspendedAt base t path i) : ∃ b, locate base t path = some (i, .leaf b) := by
  induction h with
  | leaf base b => exact ⟨b, rfl⟩
  | node kind left held right ih =>
    obtain ⟨b, found⟩ := ih
    exact ⟨b, by rw [locate_child, found]⟩

theorem SuspendedAt.pointer_iff {base : Nat} {t : Tree L} {path : List Nat} {i : Nat}
    (h : SuspendedAt base t path i) (q : List Nat) (n : Nat) (kind : Kind)
    (children : List (Tree L)) (pointer : Option Nat) (j : Nat)
    (found : locate base t q = some (n, .node kind children pointer)) :
    pointer = some j ↔ q ++ [j] <+: path := by
  induction h generalizing q with
  | leaf base b => cases q <;> cases found
  | @node base kind' before t after path i left held right ih =>
    cases q with
    | nil =>
      cases found
      simp [List.cons_prefix_cons, eq_comm]
    | cons k q =>
      by_cases here : k = before.length
      · subst here
        rw [locate_child] at found
        rw [ih q found, List.cons_append, List.cons_prefix_cons]
        exact (and_iff_right rfl).symm
      · have aside : ¬ (k :: q) ++ [j] <+: before.length :: path := fun h =>
          here (List.cons_prefix_cons.mp h).1
        -- Off the path there are only idle trees.
        have idle : pointer = none := by
          simp only [locate] at found
          split at found
          · rename_i s at_k
            have mem : s ∈ before ∨ s ∈ after := by
              rcases Nat.lt_or_gt_of_ne here with lt | gt
              · rw [List.getElem?_append_left lt] at at_k
                exact .inl (List.mem_of_getElem? at_k)
              · rw [List.getElem?_append_right (Nat.le_of_lt gt)] at at_k
                obtain ⟨d, hd⟩ := Nat.exists_eq_add_of_lt gt
                rw [show k - before.length = d + 1 by omega, List.getElem?_cons_succ] at at_k
                exact .inr (List.mem_of_getElem? at_k)
            rcases mem with mem | mem
            · exact (left s mem).pointer_eq_none found
            · exact (right s mem).pointer_eq_none found
          · cases found
        simp only [idle, reduceCtorEq, aside]

theorem SuspendedAt.runningPath {t : Tree L} {path : List Nat} {i : Nat}
    (h : SuspendedAt 0 t path i) : RunningPath t path i :=
  ⟨h.locate_path, h.pointer_iff⟩

/-- A pointer on the way to a leaf is the index of a child. -/
theorem RunningPath.pointer_lt {t : Tree L} {path : List Nat} {i : Nat} (h : RunningPath t path i)
    {q : List Nat} {n : Nat} {kind : Kind} {children : List (Tree L)} {j : Nat}
    (found : t.locate 0 q = some (n, .node kind children (some j))) : j < children.length := by
  obtain ⟨b, leaf⟩ := h.leads_to_leaf
  obtain ⟨rest, rfl⟩ := (h.pointer_iff q n kind children (some j) j found).mp rfl
  rw [List.append_assoc, locate_append, found] at leaf
  apply Nat.lt_of_not_le
  intro outside
  simp only [Option.bind_some, List.singleton_append, locate, List.getElem?_eq_none outside,
    reduceCtorEq] at leaf

end Tree

namespace Root

variable {L C : Type} [Behavior L C]

/-- The pointers of a tree after any calls: each is the index of a child. If the latest answer
was `running`, they are those on the way to the leaf that gave this answer, and otherwise
there are none. -/
theorem pointers_follow_running_path (t : Tree L) (built : t.Idle) (calls : List (Call C)) :
    let r := (new t).after calls
    (∀ q n kind children j, r.tree.locate 0 q = some (n, .node kind children (some j)) →
      j < children.length) ∧
    (r.last = some .running → ∃ earlier c path i, calls = earlier ++ [.tick c] ∧
      (∀ n, (n, .running) ∈ ((new t).after earlier).tree.answers c ↔ n = i) ∧
        r.tree.RunningPath path i) ∧
    (r.last ≠ some .running → ∀ p ∈ r.tree.pointers, p = none) := by
  have coherent := fun calls : List (Call C) => coherent_after (coherent_new t built) calls
  refine ⟨?_, ?_, (coherent calls).idle⟩
  · intro q n kind children j found
    by_cases running : ((new t).after calls).last = some .running
    · obtain ⟨path, i, held⟩ := (coherent calls).suspended running
      exact held.runningPath.pointer_lt found
    · cases ((coherent calls).idle running).pointer_eq_none found
  · intro running
    -- Only a tick leaves this answer, so there is a last call and it is one.
    rcases List.eq_nil_or_concat calls with rfl | ⟨earlier, c | _, rfl⟩
    · cases running
    · rw [List.concat_eq_append, after_concat] at running ⊢
      obtain ⟨path, i, held, answered⟩ :=
        suspended_tick (coherent earlier) c (Option.some.inj running)
      exact ⟨earlier, c, path, i, rfl, answered, held.runningPath⟩
    · rw [List.concat_eq_append, after_concat] at running
      cases running

/-- A guard in front of a sequence that waits at its second child, under a reactive selector. -/
def guardedWait : Tree (Leaf Bool) :=
  .fresh .reactive [.leaf (.condition id),
    .fresh .sequence [.leaf (.condition not), .leaf (.action fun c => (.running, c))]]

theorem idle_guardedWait : guardedWait.Idle := by
  have wait : (Tree.fresh .sequence [.leaf (Leaf.condition not),
      .leaf (.action fun c => (.running, c))]).Idle := by
    apply Tree.idle_fresh
    simp [Tree.AllIdle, Tree.idle_leaf]
  apply Tree.idle_fresh
  simp [Tree.AllIdle, Tree.idle_leaf, wait]

/-- The sequence waits at its second child; leaf number 2 is running. -/
theorem guardedWait_running_path :
    let calls : List (Call Bool) := [.tick false, .reset, .tick false]
    let r := (new guardedWait).after calls
    guardedWait.Idle ∧ r.last = some .running ∧ r.tree.pointers = [some 1, some 1] ∧
      ∃ path i, r.tree.RunningPath path i :=
  have ⟨_, suspended, _⟩ := pointers_follow_running_path guardedWait idle_guardedWait
    [.tick false, .reset, .tick false]
  have ⟨_, _, path, i, _, _, h⟩ := suspended rfl
  ⟨idle_guardedWait, rfl, rfl, path, i, h⟩

end Root

end ArenaAgent
