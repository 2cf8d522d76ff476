import ArenaAgent.Proofs.Tree.Replay
import ArenaAgent.Proofs.Tree.Resumption

/-!
What the host of a tree does with it, and what it can rely on. After any calls the host's record of
the latest answer tells whether the tree is suspended (`coherent_after`). The context is an argument
of each tick, so the host may have changed it since the tick before.
-/
namespace ArenaAgent.Root

variable {L C : Type}

inductive Call (C : Type) where
  /-- Evaluates the tree once, from a context. -/
  | tick (context : C)
  | reset

/-- The tree is suspended at some leaf if the latest answer was `running`, and idle otherwise. -/
def Coherent (r : Root L) : Prop :=
  if r.last = some .running then ∃ path i, Tree.SuspendedAt 0 r.tree path i else r.tree.Idle

theorem Coherent.idle {r : Root L} (h : r.Coherent) (hr : r.last ≠ some .running) :
    r.tree.Idle := by
  rwa [Coherent, if_neg hr] at h

theorem Coherent.suspended {r : Root L} (h : r.Coherent) (hr : r.last = some .running) :
    ∃ path i, Tree.SuspendedAt 0 r.tree path i := by
  rwa [Coherent, if_pos hr] at h

theorem coherent_new (t : Tree L) (h : t.Idle) : (new t).Coherent := by
  rw [Coherent, if_neg (by rintro ⟨⟩)]
  exact h

variable [Behavior L C]

def call (r : Root L) : Call C → Root L
  | .tick c => (r.tick c).next
  | .reset => r.reset.1

def after (r : Root L) (calls : List (Call C)) : Root L :=
  calls.foldl call r

theorem after_concat (r : Root L) (calls : List (Call C)) (x : Call C) :
    r.after (calls ++ [x]) = (r.after calls).call x := by
  rw [after, List.foldl_append]
  rfl

/-- A tick leaves the tree suspended at the last leaf visited, or idle. -/
theorem settled_tick {r : Root L} (h : r.Coherent) (c : C) : Tree.Settled 0 (r.tree.tick 0 c) := by
  by_cases running : r.last = some .running
  · obtain ⟨path, i, held⟩ := h.suspended running
    exact Tree.settled_tick_of_suspended held c
  · exact Tree.settled_tick_of_idle r.tree 0 c (h.idle running)

theorem coherent_call {r : Root L} (h : r.Coherent) (x : Call C) : (r.call x).Coherent := by
  cases x with
  | tick c =>
    have settled := settled_tick h c
    by_cases running : (r.tree.tick 0 c).status = .running
    · have last : (r.call (.tick c)).last = some .running := congrArg some running
      obtain ⟨path, i, held, _⟩ := settled.suspended running
      rw [Coherent, if_pos last]
      exact ⟨path, i, held⟩
    · have last : (r.call (.tick c)).last ≠ some .running := fun e => running (Option.some.inj e)
      rw [Coherent, if_neg last]
      exact settled.idle running
  | reset =>
    rw [Coherent, if_neg (by rintro ⟨⟩)]
    exact Tree.idle_reset r.tree 0

theorem coherent_after {r : Root L} (h : r.Coherent) (calls : List (Call C)) :
    (r.after calls).Coherent := by
  induction calls generalizing r with
  | nil => exact h
  | cons x calls ih => exact ih (coherent_call h x)

/-- The leaf at which a tick suspends the tree is the one that answered `running`. -/
theorem suspended_tick {r : Root L} (h : r.Coherent) (c : C)
    (running : (r.tick c).status = .running) :
    ∃ path i, Tree.SuspendedAt 0 (r.tick c).next.tree path i ∧
      ∀ n, (n, .running) ∈ r.tree.answers c ↔ n = i := by
  obtain ⟨path, i, held, last⟩ := (settled_tick h c).suspended running
  refine ⟨path, i, held, fun n => ?_⟩
  rw [Tree.running_mem_answers_iff, last, Option.some_inj]
  exact ⟨fun both => both.2.symm, fun e => ⟨running, e.symm⟩⟩

end ArenaAgent.Root
