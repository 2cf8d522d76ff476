import ArenaAgent.Tree.Lemmas

/-!
How a composite goes through its children. The scan of a row of children is put together from the
scans of its parts: children in front are left out, or asked before the others. The leaves that a
tick visits lie in the range of the tree and are met from left to right.
-/
namespace ArenaAgent.Tree

variable {L C : Type}

/-- Induction over trees: a composite may assume the statement for each of its children. -/
@[elab_as_elim, induction_eliminator]
theorem induction {motive : Tree L → Prop} (leaf : ∀ b, motive (.leaf b))
    (node : ∀ kind (children : List (Tree L)) pointer, (∀ t ∈ children, motive t) →
      motive (.node kind children pointer)) (t : Tree L) : motive t :=
  Tree.rec (motive_1 := motive) (motive_2 := fun ts => ∀ t ∈ ts, motive t) leaf node
    (fun t h => absurd h List.not_mem_nil)
    (fun _ _ first rest t h => by
      rcases List.mem_cons.mp h with rfl | h
      · exact first
      · exact rest t h)
    t

theorem forestLeaves_append (ts us : List (Tree L)) :
    forestLeaves (ts ++ us) = forestLeaves ts ++ forestLeaves us := by
  induction ts with
  | nil => rfl
  | cons t ts ih => simp only [List.cons_append, forestLeaves, ih, List.append_assoc]

variable [Behavior L C]

theorem length_children_tickForest (kind : Kind) (ts : List (Tree L))
    (base index skip : Nat) (c : C) :
    (tickForest kind base index skip ts c).children.length = ts.length := by
  induction ts generalizing base index skip c with
  | nil => rfl
  | cons t ts ih =>
    cases skip with
    | succ skip => simp only [tickForest, List.length_cons, ih]
    | zero =>
      simp only [tickForest]
      split
      · simp only [List.length_cons, ih]
      · rfl

/-! ## The parts of a row -/

/-- Children that are left out stay in front of the scan of the others. -/
theorem tickForest_leaving_out (kind : Kind) (before rest : List (Tree L))
    (base index : Nat) (c : C) :
    tickForest kind base index before.length (before ++ rest) c =
      let s := tickForest kind (base + (forestLeaves before).length)
        (index + before.length) 0 rest c
      { s with children := before ++ s.children } := by
  induction before generalizing base index with
  | nil => rfl
  | cons t before ih =>
    simp only [List.length_cons, List.cons_append, tickForest, ih, length_forestLeaves_cons]
    simp only [Nat.add_assoc, Nat.add_comm 1]

/-- A scan that stops in the first part of a row leaves the second part alone. -/
theorem tickForest_append_of_halt (kind : Kind) (before rest : List (Tree L))
    (base index : Nat) (c : C) (h : (tickForest kind base index 0 before c).halt ≠ none) :
    tickForest kind base index 0 (before ++ rest) c =
      let s := tickForest kind base index 0 before c
      { s with children := s.children ++ rest } := by
  induction before generalizing base index c with
  | nil => exact absurd rfl h
  | cons t before ih =>
    simp only [List.cons_append, tickForest] at h ⊢
    split
    · rename_i passed
      rw [if_pos passed] at h
      rw [ih _ _ _ h]
      simp only [List.cons_append]
    · rfl

/-- A scan that passes the first part of a row goes on with the second. -/
theorem tickForest_append_of_pass (kind : Kind) (before rest : List (Tree L))
    (base index : Nat) (c : C) (h : (tickForest kind base index 0 before c).halt = none) :
    tickForest kind base index 0 (before ++ rest) c =
      let s := tickForest kind base index 0 before c
      let s' := tickForest kind (base + (forestLeaves before).length) (index + before.length) 0 rest
        s.context
      ⟨s.children ++ s'.children, s'.halt, s'.context, s.visits ++ s'.visits,
        s.resets ++ s'.resets⟩ := by
  induction before generalizing base index c with
  | nil => rfl
  | cons t before ih =>
    simp only [List.cons_append, tickForest] at h ⊢
    split at h
    · rename_i passed
      simp only [if_pos passed, ih _ _ _ h, length_forestLeaves_cons, List.length_cons,
        List.cons_append, List.append_assoc, Nat.add_assoc, Nat.add_comm 1]
    · cases h

/-- Where a scan stops: at a child of the row, not left out, that did not pass. -/
theorem tickForest_halt (kind : Kind) (ts : List (Tree L)) (base index skip : Nat) (c : C)
    (stopped : Nat) (status : Status)
    (h : (tickForest kind base index skip ts c).halt = some (stopped, status)) :
    status ≠ kind.passing ∧ index + skip ≤ stopped ∧ stopped < index + ts.length := by
  induction ts generalizing base index skip c with
  | nil => cases h
  | cons t ts ih =>
    rw [List.length_cons]
    cases skip with
    | succ skip =>
      obtain ⟨failed, lower, upper⟩ := ih _ _ _ _ h
      exact ⟨failed, by omega, by omega⟩
    | zero =>
      simp only [tickForest] at h
      split at h
      · obtain ⟨failed, lower, upper⟩ := ih _ _ _ _ h
        exact ⟨failed, by omega, by omega⟩
      · rename_i failed
        cases h
        exact ⟨failed, by omega, by omega⟩

theorem tick_node_of_pass (kind : Kind) (ts : List (Tree L)) (pending : Option Nat)
    (base : Nat) (c : C) {start : Nat} (hs : kind.start pending = start)
    (h : (tickForest kind base 0 start ts c).halt = none) :
    tick base (.node kind ts pending) c =
      let s := tickForest kind base 0 start ts c
      ⟨kind.passing, .node kind s.children none, s.context, s.visits, s.resets⟩ := by
  simp only [tick, hs, h]

theorem tick_node_of_halt (kind : Kind) (ts : List (Tree L)) (pending : Option Nat)
    (base : Nat) (c : C) {start : Nat} (hs : kind.start pending = start) {stopped : Nat}
    {status : Status} (h : (tickForest kind base 0 start ts c).halt = some (stopped, status)) :
    tick base (.node kind ts pending) c =
      let s := tickForest kind base 0 start ts c
      let r := abandon base pending stopped s.children
      ⟨status, .node kind r.1 (if status = .running then some stopped else none),
        s.context, s.visits, s.resets ++ r.2⟩ := by
  simp only [tick, hs, h]

/-! ## The order of visits -/

theorem visits_tick_node (kind : Kind) (ts : List (Tree L)) (pointer : Option Nat)
    (base : Nat) (c : C) :
    (tick base (.node kind ts pointer) c).visits =
      (tickForest kind base 0 (kind.start pointer) ts c).visits := by
  simp only [tick]
  split <;> rfl

/-- Leaf numbers from `low` up to `high`, each greater than the one before it. -/
def Ascending (low high : Nat) (ns : List Nat) : Prop :=
  ns.Pairwise (· < ·) ∧ ∀ n ∈ ns, low ≤ n ∧ n < high

theorem Ascending.append {low mid high : Nat} {ns ms : List Nat} (left : Ascending low mid ns)
    (right : Ascending mid high ms) (h : mid ≤ high) (h' : low ≤ mid) :
    Ascending low high (ns ++ ms) := by
  refine ⟨List.pairwise_append.mpr ⟨left.1, right.1, ?_⟩, ?_⟩
  · intro n hn m hm
    exact Nat.lt_of_lt_of_le (left.2 n hn).2 (right.2 m hm).1
  · intro n hn
    rcases List.mem_append.mp hn with hn | hn
    · have := left.2 n hn
      omega
    · have := right.2 n hn
      omega

theorem Ascending.mono {low high low' high' : Nat} {ns : List Nat} (h : Ascending low high ns)
    (hl : low' ≤ low) (hh : high ≤ high') : Ascending low' high' ns :=
  ⟨h.1, fun n hn => ⟨Nat.le_trans hl (h.2 n hn).1, Nat.lt_of_lt_of_le (h.2 n hn).2 hh⟩⟩

theorem Ascending.nil (low high : Nat) : Ascending low high [] :=
  ⟨.nil, fun _ h => absurd h List.not_mem_nil⟩

theorem Ascending.count {low high : Nat} {ns : List Nat} (h : Ascending low high ns) {n : Nat}
    (hn : n ∈ ns) : ns.count n = 1 := by
  have once : ns.Nodup := h.1.imp Nat.ne_of_lt
  rw [once.count, if_pos hn]

theorem ascending_visits_tickForest (kind : Kind) (ts : List (Tree L))
    (ih : ∀ t ∈ ts, ∀ (base : Nat) (c : C),
      Ascending base (base + t.leafCount) (tick base t c).visits)
    (base index skip : Nat) (c : C) :
    Ascending base (base + (forestLeaves ts).length)
      (tickForest kind base index skip ts c).visits := by
  induction ts generalizing base index skip c with
  | nil => exact .nil _ _
  | cons t ts ihts =>
    have first := ih t (List.mem_cons_self ..) base c
    have rest := fun index skip c =>
      ihts (fun s hs => ih s (List.mem_cons_of_mem _ hs)) (base + t.leafCount) index skip c
    rw [length_forestLeaves_cons, ← Nat.add_assoc]
    cases skip with
    | succ skip => exact (rest _ skip c).mono (Nat.le_add_right ..) (Nat.le_refl _)
    | zero =>
      simp only [tickForest]
      split
      · exact first.append (rest _ 0 _) (Nat.le_add_right ..) (Nat.le_add_right ..)
      · exact first.mono (Nat.le_refl _) (Nat.le_add_right ..)

/-- A tick visits leaves of the tree only, each at most once, and from left to right. -/
theorem ascending_visits_tick (t : Tree L) (base : Nat) (c : C) :
    Ascending base (base + t.leafCount) (tick base t c).visits := by
  induction t generalizing base c with
  | leaf b => exact ⟨List.pairwise_singleton _ _, by simp [tick]⟩
  | node kind children pending ih =>
    rw [visits_tick_node]
    exact ascending_visits_tickForest kind children ih base 0 (kind.start pending) c

/-- What a scan visits after its first child are leaves of the others. -/
theorem visits_tickForest_cons (kind : Kind) (t : Tree L) (ts : List (Tree L))
    (base index : Nat) (c : C) :
    ∃ later, (tickForest kind base index 0 (t :: ts) c).visits = (tick base t c).visits ++ later ∧
      ∀ n ∈ later, base + t.leafCount ≤ n := by
  simp only [tickForest]
  split
  · have visits :=
      ascending_visits_tickForest kind ts (fun t _ base c => ascending_visits_tick t base c)
        (base + t.leafCount) (index + 1) 0 (tick base t c).context
    exact ⟨_, rfl, fun n hn => (visits.2 n hn).1⟩
  · exact ⟨[], (List.append_nil _).symm, fun _ h => absurd h List.not_mem_nil⟩

end ArenaAgent.Tree
