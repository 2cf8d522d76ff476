import ArenaAgent.Arena.Shuttle

/-!
A rival on its way to and fro, and the points that it scores meanwhile. All who have a hold of the
rival see one pair of a position and a score, of which a walk and an award both make a new one.
Still neither takes anything away from the other: the walk goes on as if there were no points
(`after_scored`), and no point gets lost on the way.
-/
namespace ArenaAgent.Shuttle

variable {α : Type}

/-- What its host does with a rival. -/
inductive Deed (α : Type) where
  | walk (elapsed : α)
  | award (points : UInt32)

namespace Deed

def isWalk : Deed α → Bool
  | .walk _ => true
  | .award _ => false

def points? : Deed α → Option UInt32
  | .walk _ => none
  | .award points => some points

end Deed

/-- The points of all awards. -/
def awarded : List (Deed α) → Nat
  | [] => 0
  | .walk _ :: deeds => awarded deeds
  | .award points :: deeds => points.toNat + awarded deeds

/-- The score after all awards. -/
def tally (score : UInt32) (deeds : List (Deed α)) : UInt32 :=
  (deeds.filterMap Deed.points?).foldl addPoints score

theorem toNat_tally (score : UInt32) (deeds : List (Deed α)) :
    (tally score deeds).toNat = min (score.toNat + awarded deeds) (UInt32.size - 1) := by
  induction deeds generalizing score with
  | nil =>
    have := score.toNat_lt_size
    change score.toNat = min (score.toNat + 0) (UInt32.size - 1)
    omega
  | cons deed deeds ih =>
    cases deed with
    | walk elapsed => exact ih score
    | award points =>
      refine (ih (addPoints score points)).trans ?_
      rw [toNat_addPoints, awarded]
      omega

/-- With another score. -/
def scored (s : Shuttle α) (score : UInt32) : Shuttle α :=
  { s with rival.score := score }

/-- The point that it comes from. -/
def origin (s : Shuttle α) : Point α :=
  if s.outbound then s.start else s.finish

/-- The number of the waypoint that it walks to. -/
def direction (s : Shuttle α) : Nat :=
  if s.outbound then 1 else 0

/-- It always heads for one of the two waypoints. -/
theorem goal_at_direction (s : Shuttle α) :
    (s.direction = 0 ∨ s.direction = 1) ∧ [s.start, s.finish][s.direction]? = some s.goal := by
  cases outbound : s.outbound <;> simp [direction, goal, outbound]

variable [Scalar α]

def does (s : Shuttle α) : Deed α → Shuttle α
  | .walk elapsed => s.walk elapsed
  | .award points => s.award points

def after (s : Shuttle α) (deeds : List (Deed α)) : Shuttle α :=
  deeds.foldl does s

/-- Where it stands after each of its walks. -/
def track (s : Shuttle α) : List (Deed α) → List (Point α)
  | [] => []
  | .walk elapsed :: deeds => (s.walk elapsed).rival.position :: (s.walk elapsed).track deeds
  | .award points :: deeds => (s.award points).track deeds

/-- Where it stands each time that it has turned around. -/
def turns (s : Shuttle α) : List (Deed α) → List (Point α)
  | [] => []
  | deed :: deeds =>
    if (s.does deed).outbound = s.outbound then (s.does deed).turns deeds
    else (s.does deed).rival.position :: (s.does deed).turns deeds

theorem walk_of_reaches {s : Shuttle α} {elapsed : α} (h : s.Reaches elapsed) :
    s.walk elapsed = { s with rival.position := s.goal, outbound := !s.outbound } :=
  if_pos h

theorem walk_of_not_reaches {s : Shuttle α} {elapsed : α} (h : ¬ s.Reaches elapsed) :
    s.walk elapsed =
      { s with
        rival.position :=
          s.rival.position.polar (s.rival.position.bearing s.goal) (s.speed * elapsed) } :=
  if_neg h

/-- A walk does not look at the score, and it leaves it as it is. -/
theorem walk_scored (s : Shuttle α) (score : UInt32) (elapsed : α) :
    (s.scored score).walk elapsed = (s.walk elapsed).scored score := by
  by_cases reaches : s.Reaches elapsed
  · rw [walk_of_reaches reaches]
    exact walk_of_reaches (s := s.scored score) reaches
  · rw [walk_of_not_reaches reaches]
    exact walk_of_not_reaches (s := s.scored score) reaches

/-- The walks and the awards do not get in each other's way. -/
theorem after_scored (s : Shuttle α) (score : UInt32) (deeds : List (Deed α)) :
    (s.scored score).after deeds =
      (s.after (deeds.filter Deed.isWalk)).scored (tally score deeds) := by
  induction deeds generalizing s score with
  | nil => rfl
  | cons deed deeds ih =>
    cases deed with
    | walk elapsed =>
      change ((s.scored score).walk elapsed).after deeds = _
      rw [walk_scored]
      exact ih (s.walk elapsed) score
    | award points => exact ih s (addPoints score points)

theorem track_scored (s : Shuttle α) (score : UInt32) (deeds : List (Deed α)) :
    (s.scored score).track deeds = s.track (deeds.filter Deed.isWalk) := by
  induction deeds generalizing s score with
  | nil => rfl
  | cons deed deeds ih =>
    cases deed with
    | walk elapsed =>
      simp only [track, walk_scored]
      exact congrArg _ (ih (s.walk elapsed) score)
    | award points => exact ih s (addPoints score points)

/-- What no deed changes. -/
theorem frame_does (s : Shuttle α) (deed : Deed α) :
    (s.does deed).start = s.start ∧ (s.does deed).finish = s.finish ∧
      (s.does deed).speed = s.speed := by
  cases deed with
  | walk elapsed =>
    simp only [does, walk]
    split <;> exact ⟨rfl, rfl, rfl⟩
  | award points => exact ⟨rfl, rfl, rfl⟩

theorem frame_after (s : Shuttle α) (deeds : List (Deed α)) :
    (s.after deeds).start = s.start ∧ (s.after deeds).finish = s.finish ∧
      (s.after deeds).speed = s.speed := by
  induction deeds generalizing s with
  | nil => exact ⟨rfl, rfl, rfl⟩
  | cons deed deeds ih =>
    obtain ⟨start, finish, speed⟩ := s.frame_does deed
    obtain ⟨start', finish', speed'⟩ := ih (s.does deed)
    exact ⟨start'.trans start, finish'.trans finish, speed'.trans speed⟩

theorem direction_walk (s : Shuttle α) (elapsed : α) :
    (s.walk elapsed).direction = if s.Reaches elapsed then 1 - s.direction else s.direction := by
  by_cases reaches : s.Reaches elapsed
  · rw [if_pos reaches, walk_of_reaches reaches]
    cases outbound : s.outbound <;> simp [direction, outbound]
  · rw [if_neg reaches, walk_of_not_reaches reaches]
    rfl

/-- The goal after this one is where it came from. -/
theorem turned_does {s : Shuttle α} {deed : Deed α} (turned : (s.does deed).outbound ≠ s.outbound) :
    (s.does deed).rival.position = s.goal ∧ (s.does deed).goal = s.origin ∧
      (s.does deed).origin = s.goal := by
  cases deed with
  | walk elapsed =>
    have reaches : s.Reaches elapsed :=
      Decidable.byContradiction fun goes_on =>
        turned (congrArg (·.outbound) (walk_of_not_reaches goes_on))
    rw [does, walk_of_reaches reaches]
    cases outbound : s.outbound <;> simp [goal, origin, outbound]
  | award points => exact absurd rfl turned

theorem straight_does {s : Shuttle α} {deed : Deed α}
    (straight : (s.does deed).outbound = s.outbound) :
    (s.does deed).goal = s.goal ∧ (s.does deed).origin = s.origin := by
  obtain ⟨start, finish, -⟩ := s.frame_does deed
  simp only [goal, origin, straight, start, finish, and_self]

/-- It turns around at its goal first and at the point it comes from then, and so on by turns. -/
theorem turns_alternate (s : Shuttle α) (deeds : List (Deed α)) {i : Nat} {p : Point α}
    (h : (s.turns deeds)[i]? = some p) : p = if i % 2 = 0 then s.goal else s.origin := by
  induction deeds generalizing s i with
  | nil => cases h
  | cons deed deeds ih =>
    rw [turns] at h
    split at h
    · rename_i straight
      obtain ⟨goal, origin⟩ := straight_does straight
      rw [← goal, ← origin]
      exact ih _ h
    · rename_i turned
      -- a turn exchanges the two points, and the turns after it are counted from one
      obtain ⟨position, goal, origin⟩ := turned_does turned
      cases i with
      | zero => exact (Option.some.inj h).symm.trans position
      | succ i =>
        rw [ih _ h, goal, origin]
        split <;> split <;> first | rfl | omega

/-- A rival that walks between two points, and scores now and then, as all who look at it see. Every
point counts, whatever the walks, up to the greatest score, and the way is the same as if there were
no points. The rival always heads for one of the two waypoints; it turns around in the walks that
are long enough to reach this waypoint, and in no others, and it stands on the waypoint then. It
gets to `finish` first, and to the two by turns from there on. -/
theorem goes_to_and_fro (start finish : Point α) (speed : α) (deeds : List (Deed α)) :
    let first := Shuttle.new start finish speed
    let s := first.after deeds
    s.rival.score.toNat = min (awarded deeds) (UInt32.size - 1) ∧
      first.track deeds = first.track (deeds.filter Deed.isWalk) ∧
      s.rival.position = (first.after (deeds.filter Deed.isWalk)).rival.position ∧
      (s.direction = 0 ∨ s.direction = 1) ∧ [start, finish][s.direction]? = some s.goal ∧
      (∀ elapsed,
        (s.walk elapsed).direction =
            (if s.rival.position.dist s.goal ≤ speed * elapsed then 1 - s.direction
              else s.direction) ∧
          (s.rival.position.dist s.goal ≤ speed * elapsed →
            (s.walk elapsed).rival.position = s.goal)) ∧
      (∀ points, (s.award points).direction = s.direction) ∧
      ∀ i p, (first.turns deeds)[i]? = some p → p = if i % 2 = 0 then finish else start := by
  intro first s
  obtain ⟨start_eq, finish_eq, speed_eq⟩ : s.start = start ∧ s.finish = finish ∧ s.speed = speed :=
    first.frame_after deeds
  have parts : s = _ := first.after_scored 0 deeds
  obtain ⟨directions, waypoint⟩ := s.goal_at_direction
  rw [start_eq, finish_eq] at waypoint
  refine ⟨?_, first.track_scored 0 deeds, congrArg (·.rival.position) parts, directions, waypoint,
    fun elapsed => ?_, fun _ => rfl, fun i p turned => turns_alternate first deeds turned⟩
  · rw [parts]
    refine (toNat_tally 0 deeds).trans ?_
    rw [UInt32.toNat_zero, Nat.zero_add]
  · rw [← speed_eq]
    exact ⟨s.direction_walk elapsed, fun reaches => congrArg (·.rival.position)
      (walk_of_reaches reaches)⟩

end ArenaAgent.Shuttle
