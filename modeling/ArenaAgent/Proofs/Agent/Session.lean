import ArenaAgent.Proofs.Agent.Refinement

/-!
Runs of an agent that decides by its tree, and of one that decides by its mode. Whatever happens to
both, they do the same (`tree_follows_modes`).
-/
namespace ArenaAgent

inductive Occurrence (α : Type) where
  | perceive (rival : Rival α) (elapsed : α)
  | rest
  | award (points : UInt32)
  /-- The host takes events out of the journal, or puts its own into it. -/
  | log (journal : Array (Event α))
  | tick

/-- What happens to the body alone. -/
def Occurrence.befall {α : Type} : Occurrence α → Body α → Body α
  | .perceive rival elapsed, b => b.perceive rival elapsed
  | .rest, b => b.rest
  | .award points, b => b.award points
  | .log journal, b => { b with journal }
  | .tick, b => b

theorem Body.Equipped.befall {α : Type} {b : Body α} {c : Config α} (h : b.Equipped c)
    (o : Occurrence α) : (o.befall b).Equipped c := by
  cases o with
  | perceive rival elapsed => exact h.of_eq rfl rfl
  | rest => exact h.rest
  | award points => exact h.of_eq rfl rfl
  | log journal => exact h.of_eq rfl rfl
  | tick => exact h

/-- An agent whose decisions come from an `M`, with the answer and the deeds of each tick so far. -/
structure Session (M α : Type) where
  mind : M
  body : Body α
  trace : List (Status × List Nat)

namespace Session

variable {M α : Type}

def birth [Scalar α] (mind : M) (c : Config α) (position : Point α) (rng : Rng) : Session M α :=
  ⟨mind, .spawn c position rng, []⟩

/-- One thing happens. -/
def meet (decide : M → Body α → Except (Breakdown α) (Move M α)) (s : Session M α) :
    Occurrence α → Except (Breakdown α) (Session M α)
  | .tick => (decide s.mind s.body).map fun mv =>
    ⟨mv.mind, mv.body, s.trace ++ [(mv.status, mv.deeds)]⟩
  | o => .ok { s with body := o.befall s.body }

/-- One thing happens after the other, until there is a breakdown. -/
def run (decide : M → Body α → Except (Breakdown α) (Move M α)) (s : Session M α) :
    List (Occurrence α) → Except (Breakdown α) (Session M α)
  | [] => .ok s
  | o :: os => (s.meet decide o).bind fun s => s.run decide os

end Session

variable {α : Type} [Scalar α]

/-- A tick of the tree as a move. -/
def Mind.decide (mind : Mind α) (b : Body α) : Except (Breakdown α) (Move (Mind α) α) :=
  let o := mind.tick (.ok b)
  o.context.map fun b => ⟨o.status, o.next, b, deeds o.visits⟩

namespace Mode

/-- An agent with a tree is where one with a mode is. -/
structure Followed (c : Config α) (s : Session (Mind α) α) (t : Session Mode α) : Prop where
  tree : s.mind.tree = t.mind.tree c
  body : s.body = t.body
  trace : s.trace = t.trace
  fits : t.mind.Fits c
  equipped : t.body.Equipped c

theorem followed_birth (c : Config α) (position : Point α) (rng : Rng) :
    Followed c (.birth (.ofConfig c) c position rng) (.birth .clean c position rng) :=
  ⟨(Pointers.tree_unset c).symm, rfl, rfl, fits_clean c, .spawn c position rng⟩

/-- Whatever happens, both get to the same place or break down in the same way. -/
theorem followed_meet {c : Config α} {s : Session (Mind α) α} {t : Session Mode α}
    (h : Followed c s t) (o : Occurrence α) :
    match t.meet (fun m b => m.step c b) o with
    | .ok t' => ∃ s', s.meet Mind.decide o = .ok s' ∧ Followed c s' t'
    | .error e => s.meet Mind.decide o = .error e := by
  have outside : Followed c { s with body := o.befall s.body } { t with body := o.befall t.body } :=
    ⟨h.tree, congrArg o.befall h.body, h.trace, h.fits, h.equipped.befall o⟩
  cases o with
  | perceive | rest | award | log => exact ⟨_, rfl, outside⟩
  | tick =>
    have does := does_step t.mind c t.body h.fits h.equipped
    rw [← h.tree, ← h.body] at does
    simp only [Session.meet, Mind.decide, ← h.body]
    cases stepped : t.mind.step c s.body with
    | error e =>
      rw [stepped] at does
      have broken : (s.mind.tree.tick 0 (.ok s.body)).context = .error e := does
      simp only [Except.map, Root.tick, broken]
    | ok mv =>
      have kept := kept_step h.fits h.equipped (h.body ▸ stepped)
      rw [stepped] at does
      obtain ⟨status, next, context, done⟩ := does
      simp only [Except.map, Root.tick, context]
      exact ⟨_, rfl, next, rfl, by rw [h.trace, status, done], kept.1, kept.2⟩

theorem followed_run {c : Config α} {s : Session (Mind α) α} {t : Session Mode α}
    (h : Followed c s t) (os : List (Occurrence α)) :
    match t.run (fun m b => m.step c b) os with
    | .ok t' => ∃ s', s.run Mind.decide os = .ok s' ∧ Followed c s' t'
    | .error e => s.run Mind.decide os = .error e := by
  induction os generalizing s t with
  | nil => exact ⟨s, rfl, h⟩
  | cons o os ih =>
    have met := followed_meet h o
    simp only [Session.run]
    cases moved : t.meet (fun m b => m.step c b) o with
    | error e =>
      rw [moved] at met
      simp only [Except.bind, met]
    | ok t' =>
      rw [moved] at met
      obtain ⟨s', met, h'⟩ := met
      simp only [Except.bind, met]
      exact ih h'

/-- An agent that decides by its tree does what its modes say. Between ticks the resume pointers of
the tree are those of the mode; the body, the answers and the deeds are the same. -/
theorem tree_follows_modes (c : Config α) (position : Point α) (rng : Rng)
    (os : List (Occurrence α)) :
    let s := (Session.birth (.ofConfig c) c position rng).run Mind.decide os
    match (Session.birth Mode.clean c position rng).run (fun m b => m.step c b) os with
    | .ok t => t.mind.Fits c ∧ ∃ mind : Mind α, s = .ok ⟨mind, t.body, t.trace⟩ ∧
        mind.tree = t.mind.tree c ∧ mind.tree.pointers = t.mind.pointers.toList
    | .error e => s = .error e := by
  have followed := followed_run (followed_birth c position rng) os
  cases ran : (Session.birth Mode.clean c position rng).run (fun m b => m.step c b) os with
  | error e =>
    rw [ran] at followed
    exact followed
  | ok t =>
    rw [ran] at followed
    obtain ⟨s, same, h⟩ := followed
    refine ⟨h.fits, s.mind, ?_, h.tree, ?_⟩
    · rw [same, ← h.body, ← h.trace]
    · rw [h.tree]
      exact Pointers.pointers_tree _ c

end Mode

end ArenaAgent
