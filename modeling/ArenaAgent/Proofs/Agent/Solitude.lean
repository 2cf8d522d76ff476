import ArenaAgent.Proofs.Agent.Acts
import ArenaAgent.Proofs.Agent.Engagement

/-!
An agent that never finds its rival within its sense radius goes the way of a loner, which knows no
rival and no scores (`conducts_eq`). So two such agents cannot be told apart by what they do,
whatever their rivals do out of sight and whatever they collide with
(`unseen_rivals_change_nothing`).
-/
namespace ArenaAgent

variable {α : Type}

/-- What an agent shows of itself, and what its further way depends on, but for the rival
and the scores. -/
structure Conduct (α : Type) where
  position : Point α
  heading : α
  visual : Visual
  target : Point α
  patrolIndex : Nat
  frame : α
  answer : Option Status
  pointers : List (Option Nat)
  rng : Rng

def Conduct.of (b : Body α) (frame : α) (answer : Option Status) (pointers : List (Option Nat)) :
    Conduct α :=
  ⟨b.position, b.heading, b.visual, b.target, b.patrol.index, frame, answer, pointers, b.rng⟩

variable [Scalar α]

namespace Agent

def conduct (a : Agent α) : Conduct α :=
  .of a.body a.frame a.answer a.mind.tree.pointers

/-- The conducts after the updates of a life; a breakdown is the last of them. -/
def conducts (a : Agent α) : List (Operation α) → List (Except Fault (Conduct α))
  | [] => []
  | o :: os =>
    match a.operate o with
    | .ok a' => if o.rival?.isSome then .ok a'.conduct :: a'.conducts os else a'.conducts os
    | .error e => [.error e.fault]

theorem conducts_of_ok {a a' : Agent α} {rival : Rival α} {elapsed : α}
    (h : a.update rival elapsed = .ok a') (os : List (Operation α)) :
    a.conducts (.update rival elapsed :: os) = .ok a'.conduct :: a'.conducts os := by
  simp [conducts, operate, h, Operation.rival?]

theorem conducts_of_error {a : Agent α} {rival : Rival α} {elapsed : α} {e : Breakdown α}
    (h : a.update rival elapsed = .error e) (os : List (Operation α)) :
    a.conducts (.update rival elapsed :: os) = [.error e.fault] := by
  simp [conducts, operate, h]

/-- No update of the life starts with the rival within the sense radius. -/
def Unseen (a : Agent α) : List (Operation α) → Prop
  | [] => True
  | o :: os =>
    (∀ rival ∈ o.rival?, ¬ rival.position.Within a.body.position a.body.config.senseRadius) ∧
      ∀ a' ∈ (a.operate o).toOption, a'.Unseen os

instance decidableUnseen : (a : Agent α) → (os : List (Operation α)) → Decidable (a.Unseen os)
  | _, [] => .isTrue trivial
  | a, o :: os =>
    have (a' : Agent α) : Decidable (a'.Unseen os) := decidableUnseen a' os
    inferInstanceAs (Decidable
      ((∀ rival ∈ o.rival?, ¬ rival.position.Within a.body.position a.body.config.senseRadius) ∧
        ∀ a' ∈ (a.operate o).toOption, a'.Unseen os))

end Agent

def Operation.elapsed? : Operation α → Option α
  | .update _ elapsed => some elapsed
  | .collide _ | .draw | .clearJournal => none

/-! ## Bodies without company -/

/-- The body without the traces of others: the score, the rival and the journal. -/
def Body.alone (b : Body α) : Body α :=
  { b with score := 0, rival := .initial, journal := #[] }

theorem Body.alone_rest (b : Body α) : b.rest.alone = b.alone.rest := by
  have same : b.alone.moved = b.moved := rfl
  simp only [rest, same]
  split <;> rfl

theorem Body.alone_aimAtNextStop (b : Body α) :
    b.alone.aimAtNextStop.2.alone = b.aimAtNextStop.2.alone := by
  have same : b.alone.patrol = b.patrol := rfl
  simp only [aimAtNextStop, same]
  split <;> rfl

namespace Mode

def aloneMove (mv : Move Mode α) : Move Mode α :=
  { mv with body := mv.body.alone }

theorem alone_walking (m : Mode) (ds : List Nat) (arrival : α) {b b' : Body α}
    (h : b.alone = b'.alone) :
    aloneMove (m.walking ds (b.walkToTarget arrival)) =
      aloneMove (m.walking ds (b'.walkToTarget arrival)) := by
  have own (b : Body α) :
      aloneMove (m.walking ds (b.walkToTarget arrival)) =
        m.walking ds (b.alone.walkToTarget arrival) := rfl
  rw [own, own, h]

/-- A stroll, as far as it does not depend on others. -/
def strollAlone (m : Mode) (c : Config α) (b : Body α) : Except Fault (Move Mode α) :=
  ((m.stroll c [] b).map aloneMove).mapError Breakdown.fault

theorem strollAlone_alone (m : Mode) (c : Config α) (b : Body α) :
    m.strollAlone c b.alone = m.strollAlone c b := by
  simp only [strollAlone, stroll]
  split
  · rfl
  · split
    · exact congrArg Except.ok (patrol.alone_walking _ _ b.alone_aimAtNextStop)
    · split
      · rfl
      · have region : b.alone.config.wanderRegion.sample b.alone.rng =
            b.config.wanderRegion.sample b.rng := rfl
        simp only [wanderOff, Body.aimAtRandom, region]
        cases b.config.wanderRegion.sample b.rng <;> rfl

theorem strollAlone_congr (m : Mode) (c : Config α) {b b' : Body α} (h : b.alone = b'.alone) :
    m.strollAlone c b = m.strollAlone c b' := by
  rw [← m.strollAlone_alone c b, h, m.strollAlone_alone c b']

/-- A stroll starts no engagement. -/
theorem not_engaged_strolls {m : Mode} {c : Config α} {ds : List Nat} {b : Body α}
    {mv : Move Mode α} (goes : Strolls m c ds b mv) : ¬ mv.mind.Engaged := by
  have walking {n : Mode} (free : ¬ n.Engaged) (ds : List Nat) (r : Status × Body α) :
      ¬ (n.walking ds r).mind.Engaged := by
    simp only [Mode.walking]
    split
    · exact free
    · decide
  cases goes <;> exact walking (by decide) _ _

end Mode

/-! ## The loner -/

/-- An agent in a world of its own. -/
structure Loner (α : Type) where
  mode : Mode
  body : Body α
  frame : α
  answer : Option Status

namespace Loner

def conduct (l : Loner α) : Conduct α :=
  .of l.body l.frame l.answer l.mode.pointers.toList

/-- Goes through one frame. -/
def next (c : Config α) (l : Loner α) (elapsed : α) : Except Fault (Loner α) :=
  (l.mode.strollAlone c (l.body.perceive .initial (Agent.passing elapsed))).map fun mv =>
    ⟨mv.mind, mv.body.rest, Agent.frameAfter l.frame (Agent.passing elapsed), some mv.status⟩

def conducts (c : Config α) (l : Loner α) : List α → List (Except Fault (Conduct α))
  | [] => []
  | elapsed :: later =>
    match l.next c elapsed with
    | .ok l' => .ok l'.conduct :: l'.conducts c later
    | .error fault => [.error fault]

variable {c : Config α} {l : Loner α} {elapsed : α}

theorem conducts_of_ok {l' : Loner α} (h : l.next c elapsed = .ok l') (later : List α) :
    l.conducts c (elapsed :: later) = .ok l'.conduct :: l'.conducts c later := by
  simp only [conducts, h]

theorem conducts_of_error {fault : Fault} (h : l.next c elapsed = .error fault) (later : List α) :
    l.conducts c (elapsed :: later) = [.error fault] := by
  simp only [conducts, h]

end Loner

namespace Agent

/-- Without its rival the agent is the loner. -/
structure Alone (c : Config α) (a : Agent α) (l : Loner α) : Prop where
  mode : a.InMode c l.mode
  free : ¬ l.mode.Engaged
  body : l.body = a.body.alone
  frame : l.frame = a.frame
  answer : l.answer = a.answer

theorem Alone.conduct {c : Config α} {a : Agent α} {l : Loner α} (h : Alone c a l) :
    a.conduct = l.conduct := by
  rw [Agent.conduct, Loner.conduct, h.mode.tree, Mode.tree, Pointers.pointers_tree, h.body,
    h.frame, h.answer]
  rfl

theorem frame_update {a a' : Agent α} {rival : Rival α} {elapsed : α}
    (h : a.update rival elapsed = .ok a') :
    a'.frame = frameAfter a.frame (passing elapsed) := by
  obtain ⟨b, -, made⟩ := map_eq_ok.mp h
  rw [← made]

/-- In an update without the rival in sight the agent does what the loner does. -/
theorem Alone.update {c : Config α} {a : Agent α} {l : Loner α} (h : Alone c a l) {rival : Rival α}
    (far : ¬ rival.position.Within a.body.position c.senseRadius) (elapsed : α) :
    match a.update rival elapsed with
    | .ok a' => ∃ l', l.next c elapsed = .ok l' ∧ Alone c a' l'
    | .error e => l.next c elapsed = .error e.fault := by
  have moves := h.mode.update rival elapsed
  have step :
      l.mode.step c (a.perceived rival elapsed) = l.mode.stroll c [] (a.perceived rival elapsed) :=
    if_neg fun start => start.elim h.free far
  have next : l.next c elapsed = (l.mode.strollAlone c (a.perceived rival elapsed)).map fun mv =>
      ⟨mv.mind, mv.body.rest, frameAfter l.frame (passing elapsed), some mv.status⟩ := by
    rw [Loner.next, h.body]
    exact congrArg _ (l.mode.strollAlone_congr c rfl)
  rw [step] at moves
  -- Both stroll with the same outcome, so they break down together.
  rw [next, Mode.strollAlone]
  cases strolled : l.mode.stroll c [] (a.perceived rival elapsed) with
  | error e =>
    rw [strolled] at moves
    rw [moves]
    rfl
  | ok mv =>
    rw [strolled] at moves
    obtain ⟨a', updated, moved⟩ := moves
    have free : ¬ mv.mind.Engaged := Mode.not_engaged_strolls (Mode.strolls_of_ok strolled)
    rw [updated]
    refine ⟨_, rfl, moved.mode, free, ?_, ?_, moved.answer.symm⟩
    · obtain ⟨journal, recorded⟩ :=
        recordTick_body a.body.visual (a.mind.ticks + 1) mv.status mv.body.rest
      rw [moved.body, recorded]
      exact mv.body.alone_rest.symm
    · rw [frame_update updated, h.frame]

/-- An operation that is no update makes no difference. -/
theorem Alone.aside {c : Config α} {a a' : Agent α} {l : Loner α} (h : Alone c a l)
    {o : Operation α} (done : a.operate o = .ok a') (aside : o.rival? = none) : Alone c a' l := by
  obtain ⟨score, journal, same⟩ := operate_aside done aside
  rw [same]
  exact ⟨⟨h.mode.tree, h.mode.fits, h.mode.equipped.of_eq rfl rfl⟩, h.free, h.body,
    h.frame, h.answer⟩

/-- An agent that does not see its rival goes the way of the loner. -/
theorem conducts_eq {c : Config α} {a : Agent α} {l : Loner α} (h : Alone c a l)
    {os : List (Operation α)} (unseen : a.Unseen os) :
    a.conducts os = l.conducts c (os.filterMap Operation.elapsed?) := by
  induction os generalizing a l with
  | nil => rfl
  | cons o os ih =>
    obtain ⟨far, later⟩ := unseen
    cases o with
    | update rival elapsed =>
      have far : ¬ rival.position.Within a.body.position c.senseRadius := by
        rw [← h.mode.equipped.config]
        exact far rival rfl
      have moves := h.update far elapsed
      cases updated : a.update rival elapsed with
      | error e =>
        rw [updated] at moves
        exact (conducts_of_error updated os).trans (Loner.conducts_of_error moves _).symm
      | ok a' =>
        rw [updated] at moves
        obtain ⟨l', next, alone⟩ := moves
        have rest := ih alone (later a' (congrArg Except.toOption updated))
        rw [conducts_of_ok updated os, alone.conduct, rest]
        exact (Loner.conducts_of_ok next _).symm
    | collide group => exact ih (h.aside (o := .collide group) rfl rfl) (later _ rfl)
    | draw => exact ih (h.aside (o := .draw) rfl rfl) (later _ rfl)
    | clearJournal => exact ih (h.aside (o := .clearJournal) rfl rfl) (later _ rfl)

theorem alone_build {spec : AgentSpec α} {entropy : Rng} {a : Agent α}
    (h : spec.build entropy = .ok a) :
    Alone spec.config a ⟨.clean, a.body.alone, a.frame, a.answer⟩ :=
  ⟨inMode_clean_build h, (show ¬ Mode.clean.Engaged by decide), rfl, rfl, rfl⟩

theorem build_congr {spec : AgentSpec α} {entropy entropy' : Rng}
    (starts : spec.generator entropy = spec.generator entropy') :
    spec.build entropy = spec.build entropy' := by
  rw [AgentSpec.build, AgentSpec.build, starts]

/-- Two agents from the same specification and the same generator that never find their rivals
within their sense radius go the same way, if the same time passes. -/
theorem unseen_rivals_change_nothing {spec : AgentSpec α} {entropy entropy' : Rng} {a b : Agent α}
    (built : spec.build entropy = .ok a) (built' : spec.build entropy' = .ok b)
    (starts : spec.generator entropy = spec.generator entropy') {os os' : List (Operation α)}
    (unseen : a.Unseen os) (unseen' : b.Unseen os')
    (elapsed : os.filterMap Operation.elapsed? = os'.filterMap Operation.elapsed?) :
    a.conducts os = b.conducts os' := by
  rw [build_congr starts, built'] at built
  cases built
  rw [conducts_eq (alone_build built') unseen, conducts_eq (alone_build built') unseen', elapsed]

/-- Two updates with the rival out of sight, and a point scored between them. -/
def quietLife : List (Operation Float) :=
  [.update goneRival 60.0, .collide scoringGroup, .update ⟨⟨-9000.0, 0.0⟩, 5⟩ 60.0]

/-- As much time, with other rivals. -/
def otherLife : List (Operation Float) :=
  [.draw, .update ⟨⟨5000.0, 5000.0⟩, 9⟩ 60.0, .clearJournal, .update ⟨⟨5000.0, 4000.0⟩, 0⟩ 60.0,
    .collide scoringGroup]

theorem quiet_lives :
    ∃ a b, edgeSpec.build 0 = .ok a ∧ edgeSpec.build 1 = .ok b ∧ (a.conducts quietLife).length = 2 ∧
      a.conducts quietLife = b.conducts otherLife := by
  obtain ⟨a, _, built, lived, unseen, count⟩ := exists_life edgeSpec 0 []
    (P := fun a => a.Unseen quietLife ∧ (a.conducts quietLife).length = 2) (by decide +kernel)
  obtain ⟨b, _, built', lived', unseen'⟩ :=
    exists_life edgeSpec 1 [] (P := fun b => b.Unseen otherLife) (by decide +kernel)
  cases lived
  cases lived'
  exact ⟨a, b, built, built', count,
    unseen_rivals_change_nothing built built' rfl unseen unseen' rfl⟩

end Agent

end ArenaAgent
