import ArenaAgent.Proofs.Tree.Resumption

/-!
Ticks until a tree resolves, with the context left alone in between. A sequence or a memory selector
goes through its children in this way as if it were never suspended: a tick takes the first child
that it has not left out, and then either ends with it or goes on with the others.
-/
namespace ArenaAgent

namespace Outcome

variable {S T U C : Type}

def map (f : S → T) (o : Outcome S C) : Outcome T C :=
  ⟨o.status, f o.next, o.context, o.visits, o.resets⟩

/-- What `o` and then `r` gave together. -/
def following (r : Outcome S C) (o : Outcome T C) : Outcome S C :=
  { r with visits := o.visits ++ r.visits, resets := o.resets ++ r.resets }

theorem map_following (f : S → U) (r : Outcome S C) (o : Outcome T C) :
    (r.following o).map f = (r.map f).following o :=
  rfl

theorem following_following (r : Outcome S C) (o : Outcome T C) (p : Outcome U C) :
    r.following (o.following p) = (r.following o).following p := by
  simp only [following, List.append_assoc]

end Outcome

namespace Tree

variable {L C : Type} [Behavior L C]

/-- The tree is ticked until it resolves: `n` ticks answer `running`, and the next one does not. -/
inductive Completes (base : Nat) : Tree L → C → Nat → Outcome (Tree L) C → Prop
  | resolved {t : Tree L} {c : C} (h : (tick base t c).status ≠ .running) :
      Completes base t c 0 (tick base t c)
  | running {t : Tree L} {c : C} {n : Nat} {o : Outcome (Tree L) C}
      (h : (tick base t c).status = .running)
      (later : Completes base (tick base t c).next (tick base t c).context n o) :
      Completes base t c (n + 1) (o.following (tick base t c))

theorem completes_of_resolved {base : Nat} {t : Tree L} {c : C}
    (h : (tick base t c).status ≠ .running) (n : Nat) (o : Outcome (Tree L) C) :
    Completes base t c n o ↔ n = 0 ∧ o = tick base t c := by
  constructor
  · intro completes
    cases completes with
    | resolved _ => exact ⟨rfl, rfl⟩
    | running running _ => exact absurd running h
  · rintro ⟨rfl, rfl⟩
    exact .resolved h

theorem completes_of_running {base : Nat} {t : Tree L} {c : C}
    (h : (tick base t c).status = .running) (n : Nat) (o : Outcome (Tree L) C) :
    Completes base t c n o ↔ ∃ m r, n = m + 1 ∧
      Completes base (tick base t c).next (tick base t c).context m r ∧
        o = r.following (tick base t c) := by
  constructor
  · intro completes
    cases completes with
    | resolved resolved => exact absurd h resolved
    | running _ later => exact ⟨_, _, rfl, later, rfl⟩
  · rintro ⟨m, r, rfl, later, rfl⟩
    exact .running h later

/-- A tick that is another one with something done before it completes as the other one does. -/
theorem completes_of_tick_following {base : Nat} {t u : Tree L} {c d : C} {o : Outcome (Tree L) C}
    (h : tick base t c = (tick base u d).following o) (n : Nat) (r : Outcome (Tree L) C) :
    Completes base t c n r ↔ ∃ s, Completes base u d n s ∧ r = s.following o := by
  by_cases running : (tick base u d).status = .running
  · rw [completes_of_running (by rw [h]; exact running), h]
    simp only [Outcome.following_following]
    constructor
    · rintro ⟨m, s, rfl, later, rfl⟩
      exact ⟨_, .running running later, rfl⟩
    · rintro ⟨s, completes, rfl⟩
      obtain ⟨m, s, rfl, later, rfl⟩ := (completes_of_running running ..).mp completes
      exact ⟨m, s, rfl, later, rfl⟩
  · rw [completes_of_resolved (by rw [h]; exact running), h]
    simp only [completes_of_resolved running]
    constructor
    · rintro ⟨rfl, rfl⟩
      exact ⟨_, ⟨rfl, rfl⟩, rfl⟩
    · rintro ⟨s, ⟨rfl, rfl⟩, rfl⟩
      exact ⟨rfl, rfl⟩

theorem Completes.unique {base : Nat} {t : Tree L} {c : C} {n m : Nat} {o p : Outcome (Tree L) C}
    (h : Completes base t c n o) (h' : Completes base t c m p) : m = n ∧ p = o := by
  induction h generalizing m p with
  | resolved resolved => exact (completes_of_resolved resolved ..).mp h'
  | running running _ ih =>
    obtain ⟨k, q, rfl, later, rfl⟩ := (completes_of_running running ..).mp h'
    obtain ⟨rfl, rfl⟩ := ih later
    exact ⟨rfl, rfl⟩

/-! ## Composites -/

/-- A tick of a composite that leaves out the children `before`. -/
theorem tick_node_leaving_out {kind : Kind} (memory : kind ≠ .reactive) {before : List (Tree L)}
    {pointer : Option Nat} (start : kind.start pointer = before.length)
    (ts : List (Tree L)) (base : Nat) (c : C) :
    tick base (.node kind (before ++ ts) pointer) c =
      let s := tickForest kind (base + (forestLeaves before).length) before.length 0 ts c
      let status := (s.halt.map Prod.snd).getD kind.passing
      ⟨status, .node kind (before ++ s.children)
        (if status = .running then s.halt.map Prod.fst else none),
        s.context, s.visits, s.resets⟩ := by
  have whole := tickForest_leaving_out kind before ts base 0 c
  rw [Nat.zero_add] at whole
  have held : ∀ j ∈ pointer, j = before.length := by
    rintro j rfl
    rwa [start_of_ne_reactive memory] at start
  cases halted :
      (tickForest kind (base + (forestLeaves before).length) before.length 0 ts c).halt with
  | none =>
    rw [tick_node_of_pass kind _ _ base c start (by rw [whole]; exact halted), whole]
    simp only [halted, Option.map_none, Option.getD_none, kind.passing_ne_running, if_false]
  | some stop =>
    have later : before.length ≤ stop.1 := (tickForest_halt kind ts _ _ _ _ _ _ halted).2.1
    have kept (ts : List (Tree L)) : abandon base pointer stop.1 ts = (ts, []) := by
      cases pointer with
      | none => rfl
      | some j => exact abandon_of_le (held j rfl ▸ later) base ts
    rw [tick_node_of_halt kind _ _ base c start (by rw [whole]; exact halted), whole]
    simp only [halted, kept, Option.map_some, Option.getD_some, List.append_nil]

/-- A child that does not pass ends the tick of its composite. -/
theorem tick_node_of_first_fails {kind : Kind} (memory : kind ≠ .reactive) {before : List (Tree L)}
    {pointer : Option Nat} (start : kind.start pointer = before.length) (t : Tree L)
    (ts : List (Tree L)) (base : Nat) (c : C) :
    let o := tick (base + (forestLeaves before).length) t c
    o.status ≠ kind.passing → tick base (.node kind (before ++ t :: ts) pointer) c =
      ⟨o.status, .node kind (before ++ o.next :: ts)
        (if o.status = .running then some before.length else none), o.context, o.visits,
        o.resets⟩ := by
  intro o failed
  rw [tick_node_leaving_out memory start]
  simp only [tickForest, o, if_neg failed, Option.map_some, Option.getD_some]

theorem length_forestLeaves_concat_tick (before : List (Tree L)) (t : Tree L) (base : Nat) (c : C) :
    (forestLeaves (before ++ [(tick base t c).next])).length =
      (forestLeaves before).length + t.leafCount := by
  rw [forestLeaves_append, List.length_append, length_forestLeaves_cons, leafCount_tick]
  rfl

/-- After a child that passes the tick goes on with the others. -/
theorem tick_node_of_first_passes {kind : Kind} (memory : kind ≠ .reactive) {before : List (Tree L)}
    {pointer : Option Nat} (start : kind.start pointer = before.length) (t : Tree L)
    (ts : List (Tree L)) (base : Nat) (c : C) :
    let o := tick (base + (forestLeaves before).length) t c
    o.status = kind.passing → tick base (.node kind (before ++ t :: ts) pointer) c =
      (tick base (.node kind ((before ++ [o.next]) ++ ts) (some (before ++ [o.next]).length))
        o.context).following o := by
  intro o passed
  rw [tick_node_leaving_out memory start,
    tick_node_leaving_out memory (start_of_ne_reactive memory _), length_forestLeaves_concat_tick,
    List.length_append, List.length_singleton]
  simp only [tickForest, o, if_pos passed, Outcome.following, Nat.add_assoc, List.append_assoc,
    List.singleton_append]

end Tree

end ArenaAgent
