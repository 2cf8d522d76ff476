import ArenaAgent.Proofs.Tree.Scan

/-!
Where a tree is suspended. A tree is idle if none of its composites holds a resume pointer, and it
is suspended at a leaf if the pointers are those of the composites above that leaf, each to the
child that leads there. A tick of an idle tree leaves it suspended at the last leaf visited if the
answer is `running`, and idle otherwise; it resets nothing.
-/
namespace ArenaAgent.Tree

variable {L C : Type}

/-- No composite holds a resume pointer. -/
def Idle (t : Tree L) : Prop :=
  ∀ p ∈ t.pointers, p = none

def AllIdle (ts : List (Tree L)) : Prop :=
  ∀ t ∈ ts, t.Idle

theorem idle_leaf (b : L) : (leaf b).Idle :=
  fun _ h => absurd h List.not_mem_nil

theorem mem_forestPointers_iff (ts : List (Tree L)) (p : Option Nat) :
    p ∈ forestPointers ts ↔ ∃ t ∈ ts, p ∈ t.pointers := by
  induction ts with
  | nil => simp [forestPointers]
  | cons t ts ih => simp [forestPointers, ih]

theorem idle_node_iff (kind : Kind) (children : List (Tree L)) (pointer : Option Nat) :
    (node kind children pointer).Idle ↔ pointer = none ∧ AllIdle children := by
  simp only [Idle, AllIdle, pointers, List.mem_cons, mem_forestPointers_iff]
  constructor
  · intro h
    exact ⟨h _ (.inl rfl), fun t ht p hp => h p (.inr ⟨t, ht, hp⟩)⟩
  · rintro ⟨rfl, h⟩ p (rfl | ⟨t, ht, hp⟩)
    · rfl
    · exact h t ht p hp

theorem allIdle_nil : AllIdle ([] : List (Tree L)) :=
  fun _ h => absurd h List.not_mem_nil

theorem allIdle_append {ts us : List (Tree L)} : AllIdle (ts ++ us) ↔ AllIdle ts ∧ AllIdle us :=
  List.forall_mem_append

theorem allIdle_cons {t : Tree L} {ts : List (Tree L)} : AllIdle (t :: ts) ↔ t.Idle ∧ AllIdle ts :=
  List.forall_mem_cons

/-- Composites are built idle. -/
theorem idle_fresh (kind : Kind) {children : List (Tree L)} (h : AllIdle children) :
    (fresh kind children).Idle :=
  (idle_node_iff ..).mpr ⟨rfl, h⟩

/-- The tree, whose leaves are numbered from `base` on, is suspended at leaf number `i`, to
which the path leads: every composite on the way points to the next one, and no other
composite has a pointer. -/
inductive SuspendedAt : Nat → Tree L → List Nat → Nat → Prop
  | leaf (base : Nat) (b : L) : SuspendedAt base (.leaf b) [] base
  | node {base : Nat} (kind : Kind) {before : List (Tree L)} {t : Tree L} {after : List (Tree L)}
      {path : List Nat} {i : Nat} (left : AllIdle before)
      (held : SuspendedAt (base + (forestLeaves before).length) t path i) (right : AllIdle after) :
      SuspendedAt base (.node kind (before ++ t :: after) (some before.length))
        (before.length :: path) i

/-- Among the trees of a row, numbered likewise, the one at index `j` is suspended and the
others are idle. -/
def RowSuspendedAt (base : Nat) (ts : List (Tree L)) (j : Nat) (path : List Nat) (i : Nat) : Prop :=
  ∃ before t after, ts = before ++ t :: after ∧ before.length = j ∧ AllIdle before ∧
    SuspendedAt (base + (forestLeaves before).length) t path i ∧ AllIdle after

theorem RowSuspendedAt.node {base : Nat} {ts : List (Tree L)} {j : Nat} {path : List Nat} {i : Nat}
    (kind : Kind) (h : RowSuspendedAt base ts j path i) :
    SuspendedAt base (.node kind ts (some j)) (j :: path) i := by
  obtain ⟨before, t, after, rfl, rfl, left, held, right⟩ := h
  exact .node kind left held right

/-- Idle trees on both sides of a row change only the index of the suspended tree. -/
theorem RowSuspendedAt.extend {base : Nat} {before ts : List (Tree L)} {j : Nat}
    {path : List Nat} {i : Nat}
    (h : RowSuspendedAt (base + (forestLeaves before).length) ts j path i) (left : AllIdle before)
    (after : List (Tree L)) (right : AllIdle after) :
    RowSuspendedAt base (before ++ ts ++ after) (before.length + j) path i := by
  obtain ⟨own, t, rest, rfl, rfl, ownLeft, held, ownRight⟩ := h
  refine ⟨before ++ own, t, rest ++ after, ?_, ?_, ?_, ?_, ?_⟩
  · simp only [List.append_assoc, List.cons_append]
  · exact List.length_append
  · exact allIdle_append.mpr ⟨left, ownLeft⟩
  · rw [forestLeaves_append, List.length_append, ← Nat.add_assoc]
    exact held
  · exact allIdle_append.mpr ⟨ownRight, right⟩

theorem SuspendedAt.bounds {base : Nat} {t : Tree L} {path : List Nat} {i : Nat}
    (h : SuspendedAt base t path i) : base ≤ i ∧ i < base + t.leafCount := by
  induction h with
  | leaf base b => simp
  | node kind _ _ _ ih =>
    simp only [leafCount_node, forestLeaves_append, List.length_append, length_forestLeaves_cons]
    omega

/-- What a tick leaves behind: a tree suspended at the last leaf visited if the answer is `running`,
else an idle tree. -/
def Settled (base : Nat) (o : Outcome (Tree L) C) : Prop :=
  if o.status = .running then
    ∃ path i, SuspendedAt base o.next path i ∧ o.visits.getLast? = some i
  else o.next.Idle

theorem Settled.suspended {base : Nat} {o : Outcome (Tree L) C} (h : Settled base o)
    (running : o.status = .running) :
    ∃ path i, SuspendedAt base o.next path i ∧ o.visits.getLast? = some i := by
  rwa [Settled, if_pos running] at h

theorem Settled.idle {base : Nat} {o : Outcome (Tree L) C} (h : Settled base o)
    (resolved : o.status ≠ .running) : o.next.Idle := by
  rwa [Settled, if_neg resolved] at h

/-- What a scan leaves behind, the first child of the row being number `index`: a row that is
suspended where the scan stopped if that child answered `running`, else a row of idle trees. -/
def RowSettled (base index : Nat) (halt : Option (Nat × Status)) (children : List (Tree L))
    (visits : List Nat) : Prop :=
  match halt with
  | some (stopped, .running) => ∃ j path i, RowSuspendedAt base children j path i ∧
      stopped = index + j ∧ visits.getLast? = some i
  | _ => AllIdle children

theorem RowSettled.extend {base index : Nat} {halt : Option (Nat × Status)}
    {before children : List (Tree L)} {visits : List Nat}
    (h : RowSettled (base + (forestLeaves before).length)
      (index + before.length) halt children visits)
    (left : AllIdle before) (after : List (Tree L)) (right : AllIdle after) (earlier : List Nat) :
    RowSettled base index halt (before ++ children ++ after) (earlier ++ visits) := by
  have idle : AllIdle children → AllIdle (before ++ children ++ after) := fun own =>
    allIdle_append.mpr ⟨allIdle_append.mpr ⟨left, own⟩, right⟩
  rcases halt with _ | ⟨stopped, _ | _ | _⟩
  · exact idle h
  · exact idle h
  · exact idle h
  · obtain ⟨j, path, i, row, rfl, last⟩ := h
    refine ⟨before.length + j, path, i, row.extend left after right, Nat.add_assoc .., ?_⟩
    rw [List.getLast?_append, last, Option.some_or]

theorem RowSettled.append {base index : Nat} {halt : Option (Nat × Status)}
    {children : List (Tree L)} {visits : List Nat} (h : RowSettled base index halt children visits)
    {after : List (Tree L)} (right : AllIdle after) :
    RowSettled base index halt (children ++ after) visits := by
  have row : RowSettled (base + (forestLeaves ([] : List (Tree L))).length)
      (index + 0) halt children visits := h
  exact row.extend allIdle_nil after right []

theorem settled_node {base : Nat} (kind : Kind) {halt : Option (Nat × Status)}
    {children : List (Tree L)} {visits : List Nat} (h : RowSettled base 0 halt children visits)
    (o : Outcome (Tree L) C) (status : o.status = (halt.map Prod.snd).getD kind.passing)
    (next : o.next = .node kind children (if o.status = .running then halt.map Prod.fst else none))
    (hv : o.visits = visits) : Settled base o := by
  have idle : o.status ≠ .running → AllIdle children → Settled base o := by
    intro resolved own
    rw [Settled, if_neg resolved, next, if_neg resolved]
    exact (idle_node_iff ..).mpr ⟨rfl, own⟩
  rcases halt with _ | ⟨stopped, _ | _ | _⟩
  · exact idle (by rw [status]; exact kind.passing_ne_running) h
  · exact idle (by rw [status]; exact Status.noConfusion) h
  · exact idle (by rw [status]; exact Status.noConfusion) h
  · obtain ⟨j, path, i, row, rfl, last⟩ := h
    have running : o.status = .running := status
    rw [Settled, if_pos running, next, if_pos running, hv]
    exact ⟨j :: path, i, (Nat.zero_add j).symm ▸ row.node kind, last⟩

variable [Behavior L C]

theorem idle_reset (t : Tree L) (base : Nat) : (reset base t).1.Idle :=
  pointers_reset t base

/-- The first child of a row decides, unless it passes. -/
theorem rowSettled_cons (kind : Kind) (t : Tree L) (ts : List (Tree L)) (base index : Nat) (c : C)
    (first : Settled base (tick base t c)) (idle : AllIdle ts)
    (rest : let s := tickForest kind (base + t.leafCount) (index + 1) 0 ts (tick base t c).context
      RowSettled (base + t.leafCount) (index + 1) s.halt s.children s.visits) :
    let s := tickForest kind base index 0 (t :: ts) c
    RowSettled base index s.halt s.children s.visits := by
  simp only [tickForest]
  split
  · rename_i passed
    have idle_first := first.idle (passed ▸ kind.passing_ne_running)
    have width : (forestLeaves [(tick base t c).next]).length = t.leafCount := by
      rw [length_forestLeaves_cons, leafCount_tick]
      rfl
    rw [← width] at rest
    have whole := rest.extend (allIdle_cons.mpr ⟨idle_first, allIdle_nil⟩)
      [] allIdle_nil (tick base t c).visits
    simpa only [width, List.append_nil, List.singleton_append] using whole
  · rename_i failed
    cases status : (tick base t c).status with
    | running =>
      obtain ⟨path, i, held, last⟩ := first.suspended status
      exact ⟨0, path, i, ⟨[], _, ts, rfl, rfl, allIdle_nil, held, idle⟩, rfl, last⟩
    | success | failure =>
      exact allIdle_cons.mpr ⟨first.idle (by rw [status]; exact Status.noConfusion), idle⟩

theorem rowSettled_of_allIdle (kind : Kind) (ts : List (Tree L))
    (ih : ∀ t ∈ ts, ∀ (base : Nat) (c : C), t.Idle → Settled base (tick base t c))
    (base index : Nat) (c : C) (h : AllIdle ts) :
    let s := tickForest kind base index 0 ts c
    RowSettled base index s.halt s.children s.visits := by
  induction ts generalizing base index c with
  | nil => exact allIdle_nil
  | cons t ts ihts =>
    obtain ⟨first, rest⟩ := allIdle_cons.mp h
    apply rowSettled_cons kind t ts base index c
    · exact ih t (List.mem_cons_self ..) base c first
    · exact rest
    · exact ihts (fun s hs => ih s (List.mem_cons_of_mem _ hs)) _ _ _ rest

theorem abandon_none (base stopped : Nat) (ts : List (Tree L)) :
    abandon base none stopped ts = (ts, []) :=
  rfl

theorem settled_tick_leaf (b : L) (base : Nat) (c : C) : Settled base (tick base (leaf b) c) := by
  rw [Settled]
  split
  · exact ⟨[], base, .leaf base _, rfl⟩
  · exact idle_leaf _

/-- A tick of an idle tree leaves it suspended exactly if the answer is `running`. -/
theorem settled_tick_of_idle (t : Tree L) (base : Nat) (c : C) (h : t.Idle) :
    Settled base (tick base t c) := by
  induction t generalizing base c with
  | leaf b => exact settled_tick_leaf b base c
  | node kind children pending ih =>
    obtain ⟨rfl, idle⟩ := (idle_node_iff ..).mp h
    have row := rowSettled_of_allIdle kind children ih base 0 c idle
    cases halted : (tickForest kind base 0 0 children c).halt with
    | none =>
      rw [tick_node_of_pass kind children none base c kind.start_none halted]
      simp only [halted] at row
      refine settled_node kind row _ rfl ?_ rfl
      rw [if_neg kind.passing_ne_running]
    | some stop =>
      rw [tick_node_of_halt kind children none base c kind.start_none halted]
      simp only [halted] at row
      exact settled_node kind row _ rfl rfl rfl

theorem resets_tickForest_of_allIdle (kind : Kind) (ts : List (Tree L))
    (ih : ∀ t ∈ ts, ∀ (base : Nat) (c : C), t.Idle → (tick base t c).resets = [])
    (base index : Nat) (c : C) (h : AllIdle ts) :
    (tickForest kind base index 0 ts c).resets = [] := by
  induction ts generalizing base index c with
  | nil => rfl
  | cons t ts ihts =>
    obtain ⟨first, rest⟩ := allIdle_cons.mp h
    have none := ih t (List.mem_cons_self ..) base c first
    simp only [tickForest]
    split
    · rw [none, ihts (fun s hs => ih s (List.mem_cons_of_mem _ hs)) _ _ _ rest]
      rfl
    · exact none

/-- A tick of an idle tree resets nothing. -/
theorem resets_tick_of_idle (t : Tree L) (base : Nat) (c : C) (h : t.Idle) :
    (tick base t c).resets = [] := by
  induction t generalizing base c with
  | leaf b => rfl
  | node kind children pending ih =>
    obtain ⟨rfl, idle⟩ := (idle_node_iff ..).mp h
    have none := resets_tickForest_of_allIdle kind children ih base 0 c idle
    cases halted : (tickForest kind base 0 0 children c).halt with
    | none => rwa [tick_node_of_pass kind children _ base c kind.start_none halted]
    | some stop =>
      rw [tick_node_of_halt kind children _ base c kind.start_none halted]
      simp only [abandon_none, none, List.append_nil]

end ArenaAgent.Tree
