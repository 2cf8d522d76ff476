import ArenaAgent.Proofs.Tree.RunningPath

/-!
What becomes of a suspended leaf. The tick after the one in which a leaf answered `running` either
ticks this leaf again or resets it, and never both. If it resets leaves at all, they are those of
one child that a reactive selector held, and none of them is ticked. A tick of a tree that is not
suspended resets nothing.
-/
namespace ArenaAgent

namespace Tree

variable {L C : Type}

/-- A reactive selector in the tree holds the subtree `s`, whose first leaf is number `n`, at its
resume pointer. -/
inductive Held : Nat → Tree L → Nat → Tree L → Prop
  | here {base : Nat} {before : List (Tree L)} {s : Tree L} {after : List (Tree L)} :
      Held base (.node .reactive (before ++ s :: after) (some before.length))
        (base + (forestLeaves before).length) s
  | inside {base : Nat} {kind : Kind} {before : List (Tree L)} {t : Tree L} {after : List (Tree L)}
      {pointer : Option Nat} {n : Nat} {s : Tree L}
      (deeper : Held (base + (forestLeaves before).length) t n s) :
      Held base (.node kind (before ++ t :: after) pointer) n s

/-- The leaves of a subtree that is held are leaves of the tree. -/
theorem Held.bounds {base : Nat} {t : Tree L} {n : Nat} {s : Tree L} (h : Held base t n s) :
    base ≤ n ∧ n + s.leafCount ≤ base + t.leafCount := by
  induction h with
  | here =>
    simp only [leafCount_node, forestLeaves_append, List.length_append, length_forestLeaves_cons]
    omega
  | inside _ ih =>
    simp only [leafCount_node, forestLeaves_append, List.length_append, length_forestLeaves_cons]
    omega

/-- What a tick does with the leaf number `i` at which the tree `t` is suspended. -/
inductive Handled (base : Nat) (t : Tree L) (i : Nat) (visits resets : List Nat) : Prop
  | ticked (visited : i ∈ visits) (none : resets = [])
  | abandoned {n : Nat} {s : Tree L} (held : Held base t n s)
      (all : resets = List.range' n s.leafCount)
      (reset : i ∈ resets) (left : ∀ k ∈ resets, k ∉ visits)

variable [Behavior L C]

/-- Behind the first child of a row a scan visits only leaves of the others, and it resets none if
these are idle. -/
theorem tickForest_cons_of_allIdle (kind : Kind) (t : Tree L) (ts : List (Tree L))
    (base index : Nat) (c : C) (idle : AllIdle ts) :
    let s := tickForest kind base index 0 (t :: ts) c
    let o := tick base t c
    ∃ later, s.visits = o.visits ++ later ∧ (∀ n ∈ later, base + t.leafCount ≤ n) ∧
      s.resets = o.resets := by
  obtain ⟨later, visits, late⟩ := visits_tickForest_cons kind t ts base index c
  refine ⟨later, visits, late, ?_⟩
  simp only [tickForest]
  split
  · rw [resets_tickForest_of_allIdle kind ts (fun t _ base c h =>
      resets_tick_of_idle t base c h) _ _ _ idle, List.append_nil]
  · rfl

theorem handled_tick {base : Nat} {t : Tree L} {path : List Nat} {i : Nat}
    (h : SuspendedAt base t path i) (c : C) :
    Handled base t i (tick base t c).visits (tick base t c).resets := by
  induction h generalizing c with
  | leaf base b => exact .ticked (List.mem_singleton.mpr rfl) rfl
  | @node base kind before t after path i left held right ih =>
    have resumption := resumption_tick kind before t after base c left
    generalize tick base (.node kind (before ++ t :: after) (some before.length)) c =
      o at resumption ⊢
    cases resumption with
    | preempted reactive halted =>
      subst reactive
      simp only [resets_reset]
      have visits := ascending_visits_tickForest .reactive before
        (fun t _ base c => ascending_visits_tick t base c) base 0 0 c
      refine .abandoned .here rfl ?_ ?_
      · rw [List.mem_range'_1]
        exact held.bounds
      · intro k hk visited
        rw [List.mem_range'_1] at hk
        exact Nat.not_lt.mpr hk.1 (visits.2 k visited).2
    | @resumed c' front earlier idle length width early =>
      obtain ⟨later, visits, late, resets⟩ := tickForest_cons_of_allIdle kind t after
        (base + (forestLeaves before).length) before.length c' right
      simp only [visits, resets]
      cases ih c' with
      | ticked visited none =>
        exact .ticked (List.mem_append_right _ (List.mem_append_left _ visited)) none
      | @abandoned n s heldInside all reset apart =>
        refine .abandoned (.inside heldInside) all reset ?_
        intro k hk visited
        have bounds := heldInside.bounds
        have inside := hk
        rw [all, List.mem_range'_1] at inside
        rcases List.mem_append.mp visited with before_held | visited
        · have := early k before_held
          omega
        · rcases List.mem_append.mp visited with own | behind
          · exact apart k hk own
          · have := late k behind
            omega

end Tree

namespace Root

variable {L C : Type} [Behavior L C]

theorem resets_tick_of_resolved {r : Root L} (h : r.Coherent)
    (hr : r.last ≠ some .running) (c : C) : (r.tick c).resets = [] :=
  Tree.resets_tick_of_idle r.tree 0 c (h.idle hr)

/-- The tick that follows an answer `running` ticks the leaf that gave it, once, or resets it, once,
but not both. The leaves it resets are none, or in order those of a child that a reactive selector
holds, and then it ticks none of them. Every other tick resets no leaf. -/
theorem running_leaf_ticked_or_reset (t : Tree L) (built : t.Idle)
    (calls : List (Call C)) (c d : C) :
    let r := (new t).after calls
    let o := r.tick c
    let o' := o.next.tick d
    (o.status = .running → ∃ i, (∀ n, (n, .running) ∈ r.tree.answers c ↔ n = i) ∧
      (o'.visits.count i = 1 ∧ i ∉ o'.resets ∨ o'.resets.count i = 1 ∧ i ∉ o'.visits) ∧
        (o'.resets = [] ∨ ∃ n s, Tree.Held 0 o.next.tree n s ∧
          o'.resets = List.range' n s.leafCount ∧ ∀ k ∈ o'.resets, k ∉ o'.visits)) ∧
    (o.status ≠ .running → o'.resets = []) ∧
    (r.reset.1.tick d).resets = [] ∧ ((new t).tick d).resets = [] := by
  intro r o o'
  have coherent : r.Coherent := coherent_after (coherent_new t built) calls
  refine ⟨?_, ?_, ?_, ?_⟩
  · intro running
    obtain ⟨path, i, held, answered⟩ := suspended_tick coherent c running
    have visits := Tree.ascending_visits_tick o.next.tree 0 d
    refine ⟨i, answered, ?_⟩
    cases Tree.handled_tick held d with
    | ticked visited none =>
      refine ⟨.inl ⟨visits.count visited, ?_⟩, .inl none⟩
      exact fun mem => absurd (none ▸ mem) List.not_mem_nil
    | @abandoned n s heldInside all reset left =>
      have once : o'.resets.Nodup := all ▸ List.nodup_range'
      refine ⟨.inr ⟨?_, left i reset⟩, .inr ⟨n, s, heldInside, all, left⟩⟩
      rw [once.count]
      exact if_pos reset
  · intro resolved
    exact resets_tick_of_resolved (coherent_call coherent (.tick c))
      (fun e => resolved (Option.some.inj e)) d
  · exact resets_tick_of_resolved (coherent_call coherent .reset) nofun d
  · exact resets_tick_of_resolved (coherent_new t built) nofun d

/-- The guard takes over from the sequence, both of whose leaves are reset. -/
theorem guardedWait_abandoned :
    guardedWait.Idle ∧ ((new guardedWait).tick false).status = .running ∧
      let o := ((new guardedWait).tick false).next.tick true
      o.visits = [0] ∧ o.resets = [1, 2] ∧ ∃ i, (o.visits.count i = 1 ∧ i ∉ o.resets ∨
        o.resets.count i = 1 ∧ i ∉ o.visits) :=
  have ⟨i, _, handled, _⟩ :=
    (running_leaf_ticked_or_reset guardedWait idle_guardedWait [] false true).1 rfl
  ⟨idle_guardedWait, rfl, rfl, rfl, i, handled⟩

end Root

end ArenaAgent
