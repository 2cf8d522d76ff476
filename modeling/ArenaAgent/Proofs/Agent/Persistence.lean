import ArenaAgent.Agent.Body.Walk

/-!
A body that does the same thing in tick after tick, whatever rival it sees and however
long the ticks take.
-/
namespace ArenaAgent

variable {α : Type}

/-- What a tick starts from. -/
structure Beat (α : Type) where
  rival : Rival α
  elapsed : α

namespace Body

def heed (b : Body α) (beat : Beat α) : Body α :=
  b.perceive beat.rival beat.elapsed

/-- What is left of the body after a deed in every tick. -/
def persist (deed : Body α → Status × Body α) (b : Body α) (beats : List (Beat α)) : Body α :=
  beats.foldl (fun b beat => (deed (b.heed beat)).2) b

/-- What a deed keeps of a body, whatever it perceives, is kept in all ticks. -/
theorem persist_keeps {deed : Body α → Status × Body α} {P : Body α → Prop} {beats : List (Beat α)}
    (kept : ∀ (b : Body α), ∀ beat ∈ beats, P b → P (deed (b.heed beat)).2) {b : Body α} (h : P b) :
    P (b.persist deed beats) := by
  induction beats generalizing b with
  | nil => exact h
  | cons beat beats ih =>
    exact ih (fun b other mem => kept b other (List.mem_cons_of_mem _ mem))
      (kept b beat (List.mem_cons_self ..) h)

theorem stride_heed [Scalar α] {b b' : Body α} (speed : b'.speed = b.speed) (beat : Beat α) :
    (b'.heed beat).stride = b.speed * beat.elapsed := by
  rw [← speed]
  rfl

end Body

end ArenaAgent
