import ArenaAgent.Scalar

/-!
What the geometry of the arena relies on. Numbers need not be exact: what is used is that they are
ordered as far as they compare with themselves, that a margin makes an edge no worse than it was,
and that a random number lies between its ends. Nothing is asked of roots and angles.
-/
namespace ArenaAgent.Scalar

/-- Numbers on which the arena can rely. -/
class Lawful (α : Type) [Scalar α] : Prop where
  /-- Only numbers compare. -/
  le_self_of_le : ∀ {a b : α}, a ≤ b → a ≤ a ∧ b ≤ b
  le_trans : ∀ {a b c : α}, a ≤ b → b ≤ c → a ≤ c
  le_total : ∀ {a b : α}, a ≤ a → b ≤ b → a ≤ b ∨ b ≤ a
  lt_iff : ∀ {a b : α}, a < b ↔ a ≤ b ∧ ¬ b ≤ a
  zero_add : ∀ {m : α}, isFinite m = true → 0.0 ≤ m → Same (0.0 + m) m
  sub_le : ∀ {w m : α}, isFinite w = true → isFinite m = true → 0.0 ≤ m → w - m ≤ w
  pick_between : ∀ {low high span : α} (word : UInt64), low ≤ high → span? low high = some span →
    low ≤ pick low span word ∧ pick low span word ≤ high

export Lawful (le_trans lt_iff zero_add sub_le pick_between)

variable {α : Type} [Scalar α] [Lawful α] {a b : α}

theorem le_of_lt (h : a < b) : a ≤ b :=
  (lt_iff.mp h).1

theorem le_self_left (h : a ≤ b) : a ≤ a :=
  (Lawful.le_self_of_le h).1

theorem le_self_right (h : a ≤ b) : b ≤ b :=
  (Lawful.le_self_of_le h).2

theorem le_of_not_le (ha : a ≤ a) (hb : b ≤ b) (h : ¬ a ≤ b) : b ≤ a :=
  (Lawful.le_total ha hb).resolve_left h

/-- The greater of two is at least the second one, if that is a number. The
first one may be none. -/
theorem le_max_right (hb : b ≤ b) : b ≤ max a b := by
  rw [max]
  split
  · rename_i ha
    split
    · exact hb
    · rename_i above
      exact le_of_not_le ha hb above
  · exact hb

omit [Lawful α] in
theorem le_min {c : α} (hb : c ≤ b) (ha : c ≤ a) : c ≤ min a b := by
  rw [min]
  split
  · split
    · exact hb
    · exact ha
  · exact hb

/-- The smaller of two is at most the second one, if that is a number. -/
theorem min_le_right (hb : b ≤ b) : min a b ≤ b := by
  rw [min]
  split
  · rename_i ha
    split
    · exact hb
    · rename_i below
      by_cases h : a ≤ b
      · exact h
      · exact absurd (lt_iff.mpr ⟨le_of_not_le ha hb h, h⟩) below
  · exact hb

end ArenaAgent.Scalar
