import ArenaAgent.Proofs.Tree.Completion
import ArenaAgent.Proofs.Tree.Interchange
import ArenaAgent.Tree.Leaf

/-!
A sequence inside a sequence does what its children would do in its place, and so does a memory
selector inside a memory selector. The composite and the flat one that takes its place are
interchangeable: where both composites hold a pointer, the flat one holds the sum (`Joint`). Hence
nothing that a host can see changes when a composite anywhere in a tree is made flat
(`flattening_looks_alike`).
-/
namespace ArenaAgent

/-- The scan of the row with its children numbered from `d` on instead of zero. -/
def Scan.shift {L C : Type} (d : Nat) (s : Scan L C) : Scan L C :=
  { s with halt := s.halt.map fun stop => (d + stop.1, stop.2) }

theorem Scan.children_shift {L C : Type} (d : Nat) (s : Scan L C) :
    (s.shift d).children = s.children :=
  rfl

namespace Tree

variable {L C : Type}

/-- How the pointer of a composite, the one of its child number `m`, which is a composite of the
same kind over `n` children, and the one of the flat composite go together. Behind that child there
are `k` others. -/
inductive Joint (kind : Kind) (m n k : Nat) : Option Nat → Option Nat → Option Nat → Prop
  | front {pointer : Option Nat} (h : kind.start pointer ≤ m) :
      Joint kind m n k pointer none pointer
  | inner {j : Nat} (h : j ≤ n) : Joint kind m n k (some m) (some j) (some (m + j))
  | behind {j : Nat} (h : j ≤ k) : Joint kind m n k (some (m + 1 + j)) none (some (m + n + j))

/-- A composite in which a child is of the same kind, and the flat composite. -/
inductive Flat (kind : Kind) : Tree L → Tree L → Prop
  | node {xs ys zs : List (Tree L)} {p q r : Option Nat}
      (joint : Joint kind xs.length ys.length zs.length p q r) :
      Flat kind (.node kind (xs ++ .node kind ys q :: zs) p) (.node kind (xs ++ (ys ++ zs)) r)

theorem Flat.leaves {kind : Kind} {t u : Tree L} (h : Flat kind t u) : t.leaves = u.leaves := by
  obtain ⟨_⟩ := h
  simp only [Tree.leaves, forestLeaves_append, forestLeaves]

variable [Behavior L C]

/-- The number of the first child in a row matters only for the number at which the scan stops. -/
theorem tickForest_shift (kind : Kind) (ts : List (Tree L)) (base index d skip : Nat) (c : C) :
    tickForest kind base (d + index) skip ts c =
      (tickForest kind base index skip ts c).shift d := by
  induction ts generalizing base index skip c with
  | nil => rfl
  | cons t ts ih =>
    cases skip with
    | succ skip => simp only [tickForest, Nat.add_assoc d, ih, Scan.shift]
    | zero =>
      simp only [tickForest, Nat.add_assoc d, ih, Scan.shift]
      split
      · rfl
      · rfl

theorem resetForest_append (ts us : List (Tree L)) (base : Nat) :
    (resetForest base (ts ++ us)).1 =
      (resetForest base ts).1 ++ (resetForest (base + (forestLeaves ts).length) us).1 := by
  induction ts generalizing base with
  | nil => rfl
  | cons t ts ih =>
    simp only [List.cons_append, resetForest, ih, length_forestLeaves_cons, Nat.add_assoc]

theorem Flat.reset {kind : Kind} {t u : Tree L} (h : Flat kind t u) (base : Nat) :
    Flat kind (Tree.reset base t).1 (Tree.reset base u).1 := by
  obtain ⟨_⟩ := h
  simp only [Tree.reset, resetForest_append, resetForest, leafCount_node]
  refine .node (.front ?_)
  rw [kind.start_none]
  exact Nat.zero_le _

/-- What a composite makes of the scan of its children after leaving out `before`. -/
def conclude (kind : Kind) (before : List (Tree L)) (s : Scan L C) : Outcome (Tree L) C :=
  let status := (s.halt.map Prod.snd).getD kind.passing
  ⟨status, .node kind (before ++ s.children)
    (if status = .running then s.halt.map Prod.fst else none), s.context, s.visits, s.resets⟩

theorem tick_node_eq_conclude {kind : Kind} (memory : kind ≠ .reactive) {before : List (Tree L)}
    {pointer : Option Nat} (start : kind.start pointer = before.length) (ts : List (Tree L))
    (base : Nat) (c : C) :
    tick base (.node kind (before ++ ts) pointer) c =
      conclude kind before
        (tickForest kind (base + (forestLeaves before).length) before.length 0 ts c) :=
  tick_node_leaving_out memory start ts base c

omit [Behavior L C] in
theorem conclude_of_pass {kind : Kind} {s : Scan L C} (h : s.halt = none) (before : List (Tree L)) :
    conclude kind before s =
      ⟨kind.passing, .node kind (before ++ s.children) none, s.context, s.visits, s.resets⟩ := by
  simp only [conclude, h, Option.map_none, Option.getD_none, ite_self]

omit [Behavior L C] in
theorem conclude_of_halt {kind : Kind} {s : Scan L C} {stopped : Nat} {status : Status}
    (h : s.halt = some (stopped, status)) (before : List (Tree L)) :
    conclude kind before s =
      ⟨status, .node kind (before ++ s.children) (if status = .running then some stopped else none),
        s.context, s.visits, s.resets⟩ := by
  simp only [conclude, h, Option.map_some, Option.getD_some]

theorem conclude_append_of_pass {kind : Kind} {row : List (Tree L)} {base index : Nat} {c : C}
    (h : (tickForest kind base index 0 row c).halt = none) (before rest : List (Tree L)) :
    conclude kind before (tickForest kind base index 0 (row ++ rest) c) =
      let s := tickForest kind base index 0 row c
      (conclude kind (before ++ s.children)
        (tickForest kind (base + (forestLeaves row).length)
          (index + row.length) 0 rest s.context)).following
        (conclude kind before s) := by
  simp only [tickForest_append_of_pass kind row rest base index c h, conclude, Outcome.following,
    List.append_assoc]

theorem conclude_append_of_halt {kind : Kind} {row : List (Tree L)} {base index : Nat} {c : C}
    {stopped : Nat} {status : Status}
    (h : (tickForest kind base index 0 row c).halt = some (stopped, status))
    (before rest : List (Tree L)) :
    conclude kind before (tickForest kind base index 0 (row ++ rest) c) =
      let s := tickForest kind base index 0 row c
      ⟨status, .node kind (before ++ (s.children ++ rest))
        (if status = .running then some stopped else none), s.context, s.visits, s.resets⟩ := by
  have stops : (tickForest kind base index 0 row c).halt ≠ none := by
    rw [h]
    exact Option.some_ne_none _
  simp only [tickForest_append_of_halt kind row rest base index c stops, conclude, h,
    Option.map_some, Option.getD_some]

omit [Behavior L C] in
theorem Agree.following {R : Tree L → Tree L → Prop} {o p : Outcome (Tree L) C} (h : Agree R o p)
    {q q' : Outcome (Tree L) C} (visits : q'.visits = q.visits) (resets : q'.resets = q.resets) :
    Agree R (o.following q) (p.following q') := by
  obtain ⟨u, related, rfl⟩ := h
  exact ⟨u, related, by simp only [Outcome.following, visits, resets]⟩

/-! ## The three parts of the row -/

theorem Joint.unset (kind : Kind) (m n k : Nat) : Joint kind m n k none none none :=
  .front (kind.start_none ▸ Nat.zero_le m)

/-- The scan goes on behind the inner composite, in both rows alike. -/
theorem agree_behind (kind : Kind) (xs ys front zs : List (Tree L)) {i j : Nat}
    (nested : i = xs.length + 1 + front.length)
    (flat : j = xs.length + ys.length + front.length) (base : Nat) (c : C) :
    Agree (Flat kind)
      (conclude kind (xs ++ .node kind ys none :: front) (tickForest kind base i 0 zs c))
      (conclude kind (xs ++ (ys ++ front)) (tickForest kind base j 0 zs c)) := by
  have stops := tickForest_halt kind zs base 0 0 c
  have length := length_children_tickForest kind zs base 0 0 c
  rw [← Nat.add_zero i, ← Nat.add_zero j, tickForest_shift, tickForest_shift]
  generalize tickForest kind base 0 0 zs c = s at stops length
  cases halted : s.halt with
  | none =>
    rw [conclude_of_pass (by rw [Scan.shift, halted]; rfl),
      conclude_of_pass (by rw [Scan.shift, halted]; rfl)]
    simp only [List.append_assoc, List.cons_append]
    exact ⟨_, .node (.unset ..), rfl⟩
  | some stop =>
    obtain ⟨_, _, bound⟩ := stops _ _ halted
    rw [conclude_of_halt (by rw [Scan.shift, halted]; rfl),
      conclude_of_halt (by rw [Scan.shift, halted]; rfl)]
    simp only [List.append_assoc, List.cons_append, Scan.children_shift]
    refine ⟨_, .node ?_, rfl⟩
    split
    · rw [nested, flat, Nat.add_assoc _ front.length, Nat.add_assoc _ front.length]
      exact .behind (by rw [List.length_append, length]; omega)
    · exact .unset ..

/-- The scan of a composite as a row of its own, given the scan of its children after
leaving out `front`. -/
def enclose (kind : Kind) (front : List (Tree L)) (index : Nat) (s : Scan L C) : Scan L C :=
  ⟨[(conclude kind front s).next], s.halt.map fun stop => (index, stop.2), s.context,
    s.visits, s.resets⟩

theorem tickForest_inner {kind : Kind} (memory : kind ≠ .reactive) {front : List (Tree L)}
    {pointer : Option Nat} (start : kind.start pointer = front.length) (ys : List (Tree L))
    (base index : Nat) (c : C) :
    tickForest kind base index 0 [.node kind (front ++ ys) pointer] c =
      enclose kind front index
        (tickForest kind (base + (forestLeaves front).length) front.length 0 ys c) := by
  have inner := tick_node_eq_conclude memory start ys base c
  have stops := tickForest_halt kind ys (base + (forestLeaves front).length) front.length 0 c
  generalize tickForest kind (base + (forestLeaves front).length) front.length 0 ys c =
    s at inner stops
  cases halted : s.halt with
  | none =>
    simp only [tickForest, inner, enclose, conclude_of_pass halted, halted, if_true,
      Option.map_none, List.append_nil]
  | some stop =>
    have failed := (stops _ _ halted).1
    simp only [tickForest, inner, enclose, conclude_of_halt halted, halted, if_neg failed,
      Option.map_some]

/-- The scan goes on inside the inner composite, of which `front` is left out. -/
theorem agree_inner {kind : Kind} (memory : kind ≠ .reactive) (xs front ys zs : List (Tree L))
    {pointer : Option Nat} (start : kind.start pointer = front.length) (base : Nat) (c : C) :
    Agree (Flat kind)
      (conclude kind xs
        (tickForest kind base xs.length 0 ([.node kind (front ++ ys) pointer] ++ zs) c))
      (conclude kind (xs ++ front) (tickForest kind (base + (forestLeaves front).length)
        (xs.length + front.length) 0 (ys ++ zs) c)) := by
  have inner := tickForest_inner memory start ys base xs.length c
  have flat :=
    tickForest_shift kind ys (base + (forestLeaves front).length) front.length xs.length 0 c
  have stops := tickForest_halt kind ys (base + (forestLeaves front).length) front.length 0 c
  have length :=
    length_children_tickForest kind ys (base + (forestLeaves front).length) front.length 0 c
  have width : (forestLeaves [.node kind (front ++ ys) pointer]).length =
      (forestLeaves front).length + (forestLeaves ys).length := by
    rw [length_forestLeaves_cons, leafCount_node, forestLeaves_append, List.length_append]
    rfl
  generalize tickForest kind (base + (forestLeaves front).length) front.length 0 ys c =
    s at inner flat stops length
  cases halted : s.halt with
  | none =>
    rw [conclude_append_of_pass (by rw [inner, enclose, halted]; rfl),
      conclude_append_of_pass (by rw [flat, Scan.shift, halted]; rfl), inner, flat, width,
      ← Nat.add_assoc]
    simp only [enclose, conclude_of_pass halted, Scan.children_shift, List.append_assoc]
    have behind := agree_behind kind xs (front ++ s.children) [] zs (i := xs.length + 1) rfl
      (j := xs.length + front.length + ys.length)
      (by rw [List.length_append, length, Nat.add_assoc]; rfl)
      (base + (forestLeaves front).length + (forestLeaves ys).length) s.context
    rw [List.append_nil] at behind
    exact behind.following rfl rfl
  | some stop =>
    obtain ⟨_, _, bound⟩ := stops _ _ halted
    rw [conclude_append_of_halt (by rw [inner, enclose, halted]; rfl),
      conclude_append_of_halt (by rw [flat, Scan.shift, halted]; rfl), inner, flat]
    simp only [enclose, conclude_of_halt halted, Scan.children_shift, List.append_assoc,
      List.singleton_append]
    rw [← List.append_assoc front]
    refine ⟨_, .node ?_, rfl⟩
    split
    · exact .inner (by rw [List.length_append, length]; omega)
    · exact .unset ..

/-- The scan goes on in front of the inner composite. -/
theorem agree_front {kind : Kind} (memory : kind ≠ .reactive) (front xs ys zs : List (Tree L))
    (base : Nat) (c : C) :
    Agree (Flat kind)
      (conclude kind front (tickForest kind base front.length 0 (xs ++ .node kind ys none :: zs) c))
      (conclude kind front (tickForest kind base front.length 0 (xs ++ (ys ++ zs)) c)) := by
  have stops := tickForest_halt kind xs base front.length 0 c
  have length := length_children_tickForest kind xs base front.length 0 c
  cases halted : (tickForest kind base front.length 0 xs c).halt with
  | none =>
    rw [conclude_append_of_pass halted, conclude_append_of_pass halted]
    generalize tickForest kind base front.length 0 xs c = s at length
    have inner := agree_inner memory (front ++ s.children) [] ys zs kind.start_none
      (base + (forestLeaves xs).length) s.context
    rw [List.append_nil, List.length_append, length] at inner
    exact inner.following rfl rfl
  | some stop =>
    obtain ⟨_, _, bound⟩ := stops _ _ halted
    rw [conclude_append_of_halt halted, conclude_append_of_halt halted]
    generalize tickForest kind base front.length 0 xs c = s at length
    simp only
    rw [← List.append_assoc front, ← List.append_assoc front]
    refine ⟨_, .node ?_, rfl⟩
    split
    · exact .front (by rw [start_of_ne_reactive memory, List.length_append, length]; omega)
    · exact .unset ..

theorem exists_split {ts : List (Tree L)} {n : Nat} (h : n ≤ ts.length) :
    ∃ front rest, ts = front ++ rest ∧ front.length = n :=
  ⟨ts.take n, ts.drop n, (List.take_append_drop n ts).symm, List.length_take_of_le h⟩

theorem Flat.tick {kind : Kind} (memory : kind ≠ .reactive) {t u : Tree L}
    (h : Flat kind t u) (base : Nat) (c : C) :
    Agree (Flat kind) (Tree.tick base t c) (Tree.tick base u c) := by
  obtain @⟨xs, ys, zs, p, q, r, joint⟩ := h
  cases joint with
  | front le =>
    obtain ⟨front, rest, rfl, length⟩ := exists_split le
    rw [List.append_assoc, List.append_assoc, tick_node_eq_conclude memory length.symm,
      tick_node_eq_conclude memory length.symm]
    exact agree_front memory front rest ys zs _ c
  | inner le =>
    obtain ⟨front, rest, rfl, rfl⟩ := exists_split le
    have start : kind.start (some (xs.length + front.length)) = (xs ++ front).length := by
      rw [start_of_ne_reactive memory, List.length_append]
    rw [List.append_assoc front, ← List.append_assoc xs,
      tick_node_eq_conclude memory (start_of_ne_reactive memory _),
      tick_node_eq_conclude memory start, forestLeaves_append, List.length_append,
      List.length_append, ← Nat.add_assoc]
    exact agree_inner memory xs front rest zs (start_of_ne_reactive memory _) _ c
  | behind le =>
    obtain ⟨front, rest, rfl, rfl⟩ := exists_split le
    have nested :
        (xs ++ Tree.node kind ys none :: front).length = xs.length + 1 + front.length := by
      rw [List.length_append, List.length_cons]
      omega
    have flat : (xs ++ (ys ++ front)).length = xs.length + ys.length + front.length := by
      rw [List.length_append, List.length_append, Nat.add_assoc]
    have leaves : (forestLeaves (xs ++ Tree.node kind ys none :: front)).length =
        (forestLeaves (xs ++ (ys ++ front))).length := by
      simp only [forestLeaves_append, forestLeaves, Tree.leaves]
    rw [← List.cons_append, ← List.append_assoc, ← List.append_assoc ys,
      ← List.append_assoc xs (ys ++ front),
      tick_node_eq_conclude memory ((start_of_ne_reactive memory _).trans nested.symm),
      tick_node_eq_conclude memory ((start_of_ne_reactive memory _).trans flat.symm), leaves]
    exact agree_behind kind xs ys front rest nested flat _ c

theorem bisimulation_flat {kind : Kind} (memory : kind ≠ .reactive) :
    Bisimulation (Flat (L := L) kind) where
  leaves := Flat.leaves
  reset := Flat.reset
  tick := Flat.tick memory

/-- In one place of the first tree, where no composite on the way holds a pointer, there is a
composite with a child of its own kind, and in the second tree there is the flat composite. -/
inductive Flattens : Tree L → Tree L → Prop
  | here {kind : Kind} (memory : kind ≠ .reactive) (xs ys zs : List (Tree L)) :
      Flattens (.fresh kind (xs ++ [.fresh kind ys] ++ zs)) (.fresh kind (xs ++ ys ++ zs))
  | inside (kind : Kind) (before after : List (Tree L)) {t u : Tree L} (deeper : Flattens t u) :
      Flattens (.fresh kind (before ++ t :: after)) (.fresh kind (before ++ u :: after))

theorem Flattens.interchangeable {t u : Tree L} (h : Flattens t u) : t.Interchangeable u := by
  induction h with
  | here memory xs ys zs =>
    rw [List.append_assoc, List.append_assoc]
    exact ⟨_, bisimulation_flat memory, .node (.unset ..)⟩
  | inside kind before after _ ih => exact ih.child kind before after none

end Tree

namespace Root

variable {L C : Type} [Behavior L C]

/-- A host sees the same of a tree and of the tree made flat in one place, whatever it does. -/
theorem flattening_looks_alike {t u : Tree L} (flattens : t.Flattens u) (c : C)
    (moves : List (HostMove C)) :
    ((new u).watch c moves).map (·.toObservation) = ((new t).watch c moves).map (·.toObservation) :=
  observations_of_interchangeable flattens.interchangeable c moves

/-- A round of which the two middle stations take two ticks each, and which an alarm breaks off. -/
def sentryRound (stations : List (Tree (Leaf Nat)) → List (Tree (Leaf Nat))) : Tree (Leaf Nat) :=
  .fresh .reactive [.leaf (.condition (5 < ·)), .fresh .sequence (
    .leaf (.action fun c => (.success, c + 1)) ::
    stations [.leaf (.replay ⟨.running, [.success], 0, true⟩),
      .leaf (.replay ⟨.running, [.success], 0, true⟩)] ++
    [.leaf (.action fun c => (.success, c + 10))])]

/-- The round is broken off inside the inner sequence, and done in three ticks from its
start afterwards. -/
theorem sentryRound_flattened :
    let nested := sentryRound fun stations => [.fresh .sequence stations]
    let flat := sentryRound id
    let moves : List (HostMove Nat) :=
      [.tick, .tick, .change fun _ => 6, .tick, .change fun _ => 0, .tick, .tick, .tick]
    nested.Flattens flat ∧
      ((new nested).watch 0 moves).map (·.visits) =
        [[0, 1, 2], [0, 2, 3], [], [0], [], [0, 1, 2], [0, 2, 3], [0, 3, 4]] ∧
      ((new nested).watch 0 moves).map (·.resets) = [[], [], [], [1, 2, 3, 4], [], [], [], []] ∧
      ((new flat).watch 0 moves).map (·.toObservation) =
        ((new nested).watch 0 moves).map (·.toObservation) :=
  have flattens :
      (sentryRound fun stations => [.fresh .sequence stations]).Flattens (sentryRound id) :=
    .inside .reactive [_] [] (.here (by decide) [_] _ [_])
  ⟨flattens, rfl, rfl, flattening_looks_alike flattens 0 _⟩

end Root

end ArenaAgent
