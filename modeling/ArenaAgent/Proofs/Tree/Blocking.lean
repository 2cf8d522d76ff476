import ArenaAgent.Proofs.Tree.Completion
import ArenaAgent.Tree.Leaf

/-!
Suspended evaluation is evaluation that waits. `Evaluates` goes through a tree once: it knows no
resume pointers, and it stays at a leaf until the leaf resolves. Ticking a tree without reactive
selectors until it resolves comes to the same (`resumption_is_waiting`).
-/
namespace ArenaAgent.Tree

variable {L C : Type} [Behavior L C]

/-- The children of a composite are evaluated one after the other, up to the first one
that does not pass. -/
inductive ShortCircuit (Evaluates : Nat → Tree L → C → Nat → Outcome (Tree L) C → Prop) :
    Nat → Kind → List (Tree L) → C → Nat → Outcome (List (Tree L)) C → Prop
  | nil {base : Nat} {kind : Kind} {c : C} :
      ShortCircuit Evaluates base kind [] c 0 ⟨kind.passing, [], c, [], []⟩
  | stop {base : Nat} {kind : Kind} {t : Tree L} {ts : List (Tree L)} {c : C} {n : Nat}
      {o : Outcome (Tree L) C}
      (first : Evaluates base t c n o) (failed : o.status ≠ kind.passing) :
      ShortCircuit Evaluates base kind (t :: ts) c n (o.map (· :: ts))
  | pass {base : Nat} {kind : Kind} {t : Tree L} {ts : List (Tree L)} {c : C} {n m : Nat}
      {o : Outcome (Tree L) C}
      {r : Outcome (List (Tree L)) C} (first : Evaluates base t c n o)
      (passed : o.status = kind.passing)
      (rest : ShortCircuit Evaluates (base + t.leafCount) kind ts o.context m r) :
      ShortCircuit Evaluates base kind (t :: ts) c (n + m) ((r.map (o.next :: ·)).following o)

/-- One evaluation of the tree that waits at each leaf until it resolves. The leaves answer
`running` for `n` times altogether. -/
inductive Evaluates : Nat → Tree L → C → Nat → Outcome (Tree L) C → Prop
  | leaf {base : Nat} {b : L} {c : C} {n : Nat} {o : Outcome (Tree L) C}
      (h : Completes base (.leaf b) c n o) : Evaluates base (.leaf b) c n o
  | node {base : Nat} {kind : Kind} {children : List (Tree L)} {pointer : Option Nat}
      {c : C} {n : Nat}
      {r : Outcome (List (Tree L)) C} (row : ShortCircuit Evaluates base kind children c n r) :
      Evaluates base (.node kind children pointer) c n (r.map (.node kind · none))

omit [Behavior L C] in
theorem shortCircuit_nil_iff {R : Nat → Tree L → C → Nat → Outcome (Tree L) C → Prop} {base : Nat}
    {kind : Kind} {c : C} {n : Nat} {r : Outcome (List (Tree L)) C} :
    ShortCircuit R base kind [] c n r ↔ n = 0 ∧ r = ⟨kind.passing, [], c, [], []⟩ := by
  constructor
  · rintro ⟨⟩
    exact ⟨rfl, rfl⟩
  · rintro ⟨rfl, rfl⟩
    exact .nil

omit [Behavior L C] in
theorem shortCircuit_cons_iff {R : Nat → Tree L → C → Nat → Outcome (Tree L) C → Prop} {base : Nat}
    {kind : Kind} {t : Tree L} {ts : List (Tree L)} {c : C} {n : Nat}
    {r : Outcome (List (Tree L)) C} :
    ShortCircuit R base kind (t :: ts) c n r ↔ ∃ k o, R base t c k o ∧
      (o.status ≠ kind.passing ∧ n = k ∧ r = o.map (· :: ts) ∨
        o.status = kind.passing ∧ ∃ m q, n = k + m ∧
          ShortCircuit R (base + t.leafCount) kind ts o.context m q ∧
          r = (q.map (o.next :: ·)).following o) := by
  constructor
  · intro row
    cases row with
    | stop first failed => exact ⟨_, _, first, .inl ⟨failed, rfl, rfl⟩⟩
    | pass first passed rest => exact ⟨_, _, first, .inr ⟨passed, _, _, rfl, rest, rfl⟩⟩
  · rintro ⟨k, o, first, ⟨failed, rfl, rfl⟩ | ⟨passed, m, q, rfl, rest, rfl⟩⟩
    · exact .stop first failed
    · exact .pass first passed rest

/-- A composite that leaves out the children `before` completes as the row of its
other children does. -/
def RowCompletes (kind : Kind) (base : Nat) (before ts : List (Tree L)) (c : C) (n : Nat)
    (o : Outcome (Tree L) C) : Prop :=
  ∃ r, ShortCircuit Completes (base + (forestLeaves before).length) kind ts c n r ∧
    o = r.map fun done => .node kind (before ++ done) none

theorem rowCompletes_nil (kind : Kind) (base : Nat) (before : List (Tree L)) (c : C) (n : Nat)
    (o : Outcome (Tree L) C) :
    RowCompletes kind base before [] c n o ↔
      n = 0 ∧ o = ⟨kind.passing, .node kind before none, c, [], []⟩ := by
  simp only [RowCompletes, shortCircuit_nil_iff]
  constructor
  · rintro ⟨_, ⟨rfl, rfl⟩, rfl⟩
    exact ⟨rfl, by rw [Outcome.map, List.append_nil]⟩
  · rintro ⟨rfl, rfl⟩
    exact ⟨_, ⟨rfl, rfl⟩, by rw [Outcome.map, List.append_nil]⟩

section FirstChild

variable {kind : Kind} {base : Nat} {before : List (Tree L)} {t : Tree L} {c : C}
  {first : Outcome (Tree L) C} (ticked : tick (base + (forestLeaves before).length) t c = first)
  (ts : List (Tree L)) (n : Nat) (o : Outcome (Tree L) C)

include ticked

/-- A first child that answers `running` is asked again when the row goes on. -/
theorem rowCompletes_of_running (running : first.status = .running) :
    RowCompletes kind base before (t :: ts) c n o ↔ ∃ m p, n = m + 1 ∧
      RowCompletes kind base before (first.next :: ts) first.context m p ∧
        o = p.following first := by
  subst ticked
  simp only [RowCompletes, shortCircuit_cons_iff, completes_of_running running, leafCount_tick]
  constructor
  · rintro ⟨_, ⟨_, _, ⟨k, p, rfl, later, rfl⟩, ⟨failed, rfl, rfl⟩ | ⟨passed, m, q, rfl, rest, rfl⟩⟩,
      rfl⟩
    · exact ⟨k, _, rfl, ⟨_, ⟨k, p, later, .inl ⟨failed, rfl, rfl⟩⟩, rfl⟩, rfl⟩
    · refine ⟨k + m, _, by omega, ⟨_, ⟨k, p, later, .inr ⟨passed, m, q, rfl, rest, rfl⟩⟩, rfl⟩, ?_⟩
      rw [Outcome.map_following, Outcome.map_following, Outcome.following_following]
      rfl
  · rintro ⟨_, _, rfl, ⟨_, ⟨k, p, later, ⟨failed, rfl, rfl⟩ | ⟨passed, m, q, rfl, rest, rfl⟩⟩, rfl⟩,
      rfl⟩
    · exact ⟨_, ⟨_, _, ⟨_, p, rfl, later, rfl⟩, .inl ⟨failed, rfl, rfl⟩⟩, rfl⟩
    · refine ⟨_, ⟨_, _, ⟨k, p, rfl, later, rfl⟩, .inr ⟨passed, m, q, by omega, rest, rfl⟩⟩, ?_⟩
      rw [Outcome.map_following, Outcome.map_following, Outcome.following_following]
      rfl

/-- After a first child that passes at once the row goes on with the others. -/
theorem rowCompletes_of_passing (passed : first.status = kind.passing) :
    RowCompletes kind base before (t :: ts) c n o ↔ ∃ p,
      RowCompletes kind base (before ++ [first.next]) ts first.context n p ∧
        o = p.following first := by
  subst ticked
  have resolved := passed ▸ kind.passing_ne_running
  simp only [RowCompletes, shortCircuit_cons_iff, completes_of_resolved resolved,
    length_forestLeaves_concat_tick, Nat.add_assoc, List.append_assoc, List.singleton_append]
  constructor
  · rintro ⟨_, ⟨_, _, ⟨rfl, rfl⟩, ⟨failed, -⟩ | ⟨-, m, q, rfl, rest, rfl⟩⟩, rfl⟩
    · exact absurd passed failed
    · exact ⟨_, ⟨q, (Nat.zero_add m).symm ▸ rest, rfl⟩, rfl⟩
  · rintro ⟨_, ⟨q, rest, rfl⟩, rfl⟩
    exact ⟨_, ⟨_, _, ⟨rfl, rfl⟩, .inr ⟨passed, n, q, (Nat.zero_add n).symm, rest, rfl⟩⟩, rfl⟩

theorem rowCompletes_of_failing (resolved : first.status ≠ .running)
    (failed : first.status ≠ kind.passing) :
    RowCompletes kind base before (t :: ts) c n o ↔
      n = 0 ∧ o = first.map fun next => .node kind (before ++ next :: ts) none := by
  subst ticked
  simp only [RowCompletes, shortCircuit_cons_iff, completes_of_resolved resolved]
  constructor
  · rintro ⟨_, ⟨_, _, ⟨rfl, rfl⟩, ⟨-, rfl, rfl⟩ | ⟨passed, -⟩⟩, rfl⟩
    · exact ⟨rfl, rfl⟩
    · exact absurd passed failed
  · rintro ⟨rfl, rfl⟩
    exact ⟨_, ⟨_, _, ⟨rfl, rfl⟩, .inl ⟨failed, rfl, rfl⟩⟩, rfl⟩

end FirstChild

theorem completes_node_iff {kind : Kind} (memory : kind ≠ .reactive) (base n : Nat)
    (ts before : List (Tree L)) (pointer : Option Nat) (start : kind.start pointer = before.length)
    (c : C) (o : Outcome (Tree L) C) :
    Completes base (.node kind (before ++ ts) pointer) c n o ↔
      RowCompletes kind base before ts c n o := by
  -- A tick that is suspended leaves fewer ticks, and a child that passes leaves a shorter row.
  induction n using Nat.strongRecOn generalizing ts before pointer c o with
  | ind n ihn =>
    induction ts generalizing before pointer c o with
    | nil =>
      have passed := tick_node_leaving_out memory start [] base c
      simp only [tickForest, Option.map_none, Option.getD_none, kind.passing_ne_running, if_false,
        List.append_nil] at passed
      rw [rowCompletes_nil, List.append_nil,
        completes_of_resolved (by rw [passed]; exact kind.passing_ne_running), passed]
    | cons t ts ihts =>
      have held (m : Nat) := start_of_ne_reactive memory m
      have first_fails := tick_node_of_first_fails memory start t ts base c
      have first_passes := tick_node_of_first_passes memory start t ts base c
      generalize ticked : tick (base + (forestLeaves before).length) t c =
        first at first_fails first_passes
      by_cases running : first.status = .running
      · have suspended := first_fails (running ▸ kind.passing_ne_running.symm)
        rw [if_pos running] at suspended
        rw [rowCompletes_of_running ticked ts n o running,
          completes_of_running (by rw [suspended]; exact running), suspended]
        constructor
        · rintro ⟨m, r, rfl, later, rfl⟩
          exact ⟨m, r, rfl, (ihn m (Nat.lt_succ_self m) _ _ _ (held _) _ _).mp later, rfl⟩
        · rintro ⟨m, r, rfl, later, rfl⟩
          exact ⟨m, r, rfl, (ihn m (Nat.lt_succ_self m) _ _ _ (held _) _ _).mpr later, rfl⟩
      · by_cases passed : first.status = kind.passing
        · rw [rowCompletes_of_passing ticked ts n o passed,
            completes_of_tick_following (first_passes passed)]
          simp only [ihts _ _ (held _)]
        · have halted := first_fails passed
          rw [if_neg running] at halted
          rw [rowCompletes_of_failing ticked ts n o running passed,
            completes_of_resolved (by rw [halted]; exact running), halted]
          rfl

/-! ## Trees -/

/-- Without reactive selectors. -/
inductive Steadfast : Tree L → Prop
  | leaf (b : L) : Steadfast (.leaf b)
  | node {kind : Kind} {children : List (Tree L)} {pointer : Option Nat} (memory : kind ≠ .reactive)
      (all : ∀ t ∈ children, Steadfast t) : Steadfast (.node kind children pointer)

omit [Behavior L C] in
theorem ShortCircuit.mono {R S : Nat → Tree L → C → Nat → Outcome (Tree L) C → Prop} {base : Nat}
    {kind : Kind} {ts : List (Tree L)} {c : C} {n : Nat} {r : Outcome (List (Tree L)) C}
    (row : ShortCircuit R base kind ts c n r)
    (h : ∀ t ∈ ts, ∀ base c n o, R base t c n o → S base t c n o) :
    ShortCircuit S base kind ts c n r := by
  induction row with
  | nil => exact .nil
  | stop first failed => exact .stop (h _ (List.mem_cons_self ..) _ _ _ _ first) failed
  | pass first passed rest ih =>
    exact .pass (h _ (List.mem_cons_self ..) _ _ _ _ first) passed
      (ih fun t ht => h t (List.mem_cons_of_mem _ ht))

theorem completes_iff_evaluates {t : Tree L} (steadfast : t.Steadfast) (idle : t.Idle)
    (base : Nat) (c : C) (n : Nat) (o : Outcome (Tree L) C) :
    Completes base t c n o ↔ Evaluates base t c n o := by
  induction t generalizing base c n o with
  | leaf b =>
    constructor
    · exact .leaf
    · rintro ⟨h⟩
      exact h
  | node kind children pointer ih =>
    cases steadfast with
    | node memory all =>
      obtain ⟨rfl, allIdle⟩ := (idle_node_iff ..).mp idle
      have child (t : Tree L) (ht : t ∈ children) := ih t ht (all t ht) (allIdle t ht)
      have row := completes_node_iff memory base n children [] none kind.start_none c o
      constructor
      · intro completes
        obtain ⟨r, done, rfl⟩ := row.mp completes
        exact .node (done.mono fun t ht base c n o => (child t ht base c n o).mp)
      · intro evaluates
        cases evaluates with
        | node done =>
          exact row.mpr ⟨_, done.mono fun t ht base c n o => (child t ht base c n o).mpr, rfl⟩

/-- Suspension and resumption carry out one evaluation that waits. If `n` ticks answer `running`
before the tree resolves, then its leaves answer so for `n` times in the evaluation, and
conversely; the answer, the leaves, the context and the visits are the same. The evaluation comes
to one end at most. -/
theorem resumption_is_waiting {t : Tree L} (steadfast : t.Steadfast) (idle : t.Idle)
    (c : C) (n : Nat) (o : Outcome (Tree L) C) :
    (Completes 0 t c n o ↔ Evaluates 0 t c n o) ∧
      ∀ m p, Evaluates 0 t c n o → Evaluates 0 t c m p → m = n ∧ p = o := by
  have same := completes_iff_evaluates steadfast idle 0 c
  exact ⟨same n o, fun m p h h' => ((same n o).mpr h).unique ((same m p).mpr h')⟩

/-- An errand with two halves. The first half takes three ticks; the second half tries one way for
two ticks, which fails, and then takes another. -/
def errand : Tree (Leaf Nat) :=
  .fresh .sequence [.leaf (.replay ⟨.running, [.running, .success], 0, false⟩),
    .fresh .selector [.leaf (.replay ⟨.running, [.failure], 0, false⟩),
      .leaf (.action fun c => (.success, c + 1))]]

/-- The errand is done at the fourth tick. -/
theorem errand_waits : errand.Steadfast ∧ errand.Idle ∧
    ∃ o, Completes 0 errand 0 3 o ∧ Evaluates 0 errand 0 3 o ∧ o.status = .success ∧ o.context = 1 ∧
      o.visits = [0, 0, 0, 1, 1, 2] := by
  have steadfast : errand.Steadfast := by
    refine .node (by decide) (List.forall_mem_cons.mpr ⟨.leaf _, List.forall_mem_singleton.mpr ?_⟩)
    exact .node (by decide)
      (List.forall_mem_cons.mpr ⟨.leaf _, List.forall_mem_singleton.mpr (.leaf _)⟩)
  have idle : errand.Idle := by
    simp [errand, Idle, fresh, pointers, forestPointers]
  have completes : Completes 0 errand 0 3 _ :=
    .running rfl (.running rfl (.running rfl (.resolved (by decide))))
  exact ⟨steadfast, idle, _, completes, (resumption_is_waiting steadfast idle 0 3 _).1.mp completes,
    rfl, rfl, rfl⟩

end ArenaAgent.Tree
