import ArenaAgent.Arena.Point

/-!
What an agent sees of its rival. Scores are 32-bit counters that stop at their greatest value.
-/
namespace ArenaAgent

/-- A score after so many more points, or the greatest score. -/
def addPoints (score points : UInt32) : UInt32 :=
  if score.toNat + points.toNat < UInt32.size then score + points
  else UInt32.ofNat (UInt32.size - 1)

theorem toNat_addPoints (score points : UInt32) :
    (addPoints score points).toNat = min (score.toNat + points.toNat) (UInt32.size - 1) := by
  simp only [addPoints]
  split
  · rw [UInt32.toNat_add, Nat.mod_eq_of_lt (by assumption)]
    omega
  · have greatest : (UInt32.ofNat (UInt32.size - 1)).toNat = UInt32.size - 1 := rfl
    omega

/-- A rival as it is seen at one moment. -/
structure Rival (α : Type) where
  position : Point α
  score : UInt32

/-- A rival that nobody placed: at the origin and without points. -/
def Rival.initial {α : Type} [Scalar α] : Rival α :=
  ⟨.origin, 0⟩

end ArenaAgent
