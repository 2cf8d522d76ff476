import ArenaAgent.Tree.Lemmas

/-!
A tree in the hands of a host, which ticks it, resets it, and does with the context whatever it
likes in between. In such a run the context is carried from move to move, where a `Call` would name
it for each tick. Of each move the host sees the answer, the context, and what became of the leaves;
an inspection shows the resume pointers as well. Two trees that remain related in a way that makes
one move look alike look alike in every run (`map_watch_eq`).
-/
namespace ArenaAgent

/-- What a host sees of a move. -/
structure Observation (L C : Type) where
  /-- The answer, if the move was a tick. -/
  answer : Option Status
  context : C
  visits : List Nat
  resets : List Nat
  /-- The leaves after the move. -/
  leaves : List L

structure Inspection (L C : Type) extends Observation L C where
  /-- The resume pointers after the move. -/
  pointers : List (Option Nat)

def Tree.inspect {L C : Type} (t : Tree L) (answer : Option Status) (context : C)
    (visits resets : List Nat) : Inspection L C :=
  ⟨⟨answer, context, visits, resets, t.leaves⟩, t.pointers⟩

inductive HostMove (C : Type) where
  | tick
  | reset
  | change (f : C → C)

namespace Root

variable {L M C V : Type} [Behavior L C] [Behavior M C]

def handle (r : Root L) (c : C) : HostMove C → Root L × Inspection L C
  | .tick =>
    let o := r.tick c
    (o.next, o.next.tree.inspect (some o.status) o.context o.visits o.resets)
  | .reset =>
    let s := r.reset
    (s.1, s.1.tree.inspect none c [] s.2)
  | .change f => (r, r.tree.inspect none (f c) [] [])

/-- The inspections of a run, each move starting from the context that the one before
it left behind. -/
def watch (r : Root L) (c : C) : List (HostMove C) → List (Inspection L C)
  | [] => []
  | move :: moves =>
    let s := r.handle c move
    s.2 :: watch s.1 s.2.context moves

/-- Two trees look alike in every run if they do in every move that keeps them related. -/
theorem map_watch_eq (R : Tree L → Tree M → Prop) (view : Inspection L C → V)
    (view' : Inspection M C → V)
    (alike : ∀ (r : Root L) (s : Root M) (c : C) (move : HostMove C), R r.tree s.tree →
      let p := r.handle c move
      let q := s.handle c move
      R p.1.tree q.1.tree ∧ q.2.context = p.2.context ∧ view' q.2 = view p.2)
    {r : Root L} {s : Root M} (related : R r.tree s.tree) (c : C) (moves : List (HostMove C)) :
    (s.watch c moves).map view' = (r.watch c moves).map view := by
  induction moves generalizing r s c with
  | nil => rfl
  | cons move moves ih =>
    obtain ⟨related', context, seen⟩ := alike r s c move related
    simp only [watch, List.map_cons, seen, context, ih related']

end Root

end ArenaAgent
