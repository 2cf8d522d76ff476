import ArenaAgent.Arena.Point

/-!
A patrol: stops that are visited one after the other, in a circle.
-/
namespace ArenaAgent

/-- The stops of a patrol and the number of the one that comes next. -/
structure Patrol (α : Type) where
  stops : List (Point α)
  index : Nat

namespace Patrol

variable {α : Type}

def ofStops (stops : List (Point α)) : Patrol α :=
  ⟨stops, 0⟩

/-- The stop that comes next, and the patrol after it; the first stop comes after the last one. -/
def next? (p : Patrol α) : Option (Point α × Patrol α) :=
  (p.stops[p.index]?).map fun stop => (stop, { p with index := (p.index + 1) % p.stops.length })

/-- The next stop is one of the stops. -/
def Proper (p : Patrol α) : Prop :=
  p.index < p.stops.length

theorem proper_ofStops (stops : List (Point α)) : (ofStops stops).Proper ↔ stops ≠ [] := by
  cases stops <;> simp [Proper, ofStops]

theorem next?_of_proper (p : Patrol α) (h : p.Proper) :
    p.next? =
      some (p.stops.get ⟨p.index, h⟩, { p with index := (p.index + 1) % p.stops.length }) := by
  simp only [next?]
  rw [List.getElem?_eq_getElem h]
  rfl

theorem next?_eq_none_iff (p : Patrol α) : p.next? = none ↔ ¬ p.Proper := by
  simp [next?, Proper]

/-- A patrol that found its next stop finds the one after it, too. -/
theorem proper_of_next? (p q : Patrol α) (stop : Point α) (h : p.next? = some (stop, q)) :
    q.Proper := by
  simp only [next?, Option.map_eq_some_iff, Prod.mk.injEq] at h
  obtain ⟨_, found, _, rfl⟩ := h
  have := (List.getElem?_eq_some_iff.mp found).1
  exact Nat.mod_lt _ (by omega)

end Patrol

end ArenaAgent
