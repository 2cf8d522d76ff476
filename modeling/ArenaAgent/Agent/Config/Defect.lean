import ArenaAgent.Agent.Config

/-!
The check that a configuration leaves an agent room to move: `Config.defect?` gives the first
defect, in a fixed order. Values come first, then margins that leave no room, then stops
outside the arena.
-/
namespace ArenaAgent

inductive Defect (α : Type) where
  | notPositive (parameter : Parameter) (value : α)
  | negative (parameter : Parameter) (value : α)
  /-- A margin that takes up the whole arena. -/
  | noRoom (parameter : Parameter) (value : α)
  | stopOutside (index : Nat) (stop : Point α)

/-- The sentence about a defect, with numbers written by `number`. -/
def Defect.message {α : Type} (number : α → String) : Defect α → String
  | .notPositive p value => p.name ++ " must be positive, got " ++ number value
  | .negative p value => p.name ++ " must be non-negative, got " ++ number value
  | .noRoom p value => p.name ++ " " ++ number value ++ " leaves no room in the arena"
  | .stopOutside index stop =>
    "patrol stop " ++ toString index ++ " at (" ++ number stop.x ++ ", " ++ number stop.y
      ++ ") lies outside the arena"

namespace Parameter

/-- The parameters that have to be positive, in the order in which they are checked. -/
def positive : List Parameter :=
  [.arenaWidth, .arenaHeight, .runSpeed, .senseRadius, .fleeRadius, .arrivalRadius]

/-- The parameters that may be zero but not less. -/
def nonNegative : List Parameter :=
  [.fleeMargin, .wanderMargin]

end Parameter

namespace Config

variable {α : Type} [Scalar α]

/-- The first stop from `index` on that lies outside the arena. -/
def stopOutside? (arena : Rect α) (index : Nat) : List (Point α) → Option (Defect α)
  | [] => none
  | stop :: stops =>
    if stop ∈ arena then stopOutside? arena (index + 1) stops else some (.stopOutside index stop)

def notPositive? (c : Config α) (p : Parameter) : Option (Defect α) :=
  if Scalar.isFinite (c.value p) ∧ 0.0 < c.value p then none else some (.notPositive p (c.value p))

def negative? (c : Config α) (p : Parameter) : Option (Defect α) :=
  if Scalar.isFinite (c.value p) ∧ 0.0 ≤ c.value p then none else some (.negative p (c.value p))

def noRoom? (c : Config α) (region : Rect α) (p : Parameter) : Option (Defect α) :=
  if region.Ordered then none else some (.noRoom p (c.value p))

def defect? (c : Config α) : Option (Defect α) :=
  Parameter.positive.findSome? c.notPositive?
    <|> Parameter.nonNegative.findSome? c.negative?
    <|> c.noRoom? c.fleeRegion .fleeMargin
    <|> c.noRoom? c.wanderRegion .wanderMargin
    <|> stopOutside? c.arena 0 c.stops

theorem stopOutside?_eq_none_iff (arena : Rect α) (index : Nat) (stops : List (Point α)) :
    stopOutside? arena index stops = none ↔ ∀ stop ∈ stops, stop ∈ arena := by
  induction stops generalizing index with
  | nil => simp [stopOutside?]
  | cons stop stops ih =>
    by_cases inside : stop ∈ arena <;> simp [stopOutside?, inside, ih]

theorem notPositive?_eq_none_iff (c : Config α) (p : Parameter) :
    c.notPositive? p = none ↔ Scalar.isFinite (c.value p) = true ∧ 0.0 < c.value p := by
  simp only [notPositive?]
  split <;> simp_all

theorem negative?_eq_none_iff (c : Config α) (p : Parameter) :
    c.negative? p = none ↔ Scalar.isFinite (c.value p) = true ∧ 0.0 ≤ c.value p := by
  simp only [negative?]
  split <;> simp_all

theorem noRoom?_eq_none_iff (c : Config α) (region : Rect α) (p : Parameter) :
    c.noRoom? region p = none ↔ region.Ordered := by
  simp only [noRoom?]
  split <;> simp_all

/-- A configuration without defect satisfies every condition at once. -/
theorem defect?_eq_none_iff (c : Config α) :
    c.defect? = none ↔
      (∀ p ∈ Parameter.positive, Scalar.isFinite (c.value p) = true ∧ 0.0 < c.value p) ∧
        (∀ p ∈ Parameter.nonNegative, Scalar.isFinite (c.value p) = true ∧ 0.0 ≤ c.value p) ∧
          c.fleeRegion.Ordered ∧ c.wanderRegion.Ordered ∧ ∀ stop ∈ c.stops, stop ∈ c.arena := by
  simp only [defect?, Option.orElse_eq_orElse, Option.orElse_eq_or, Option.or_eq_none_iff,
    List.findSome?_eq_none_iff, notPositive?_eq_none_iff, negative?_eq_none_iff,
    noRoom?_eq_none_iff, stopOutside?_eq_none_iff]

end Config

end ArenaAgent
