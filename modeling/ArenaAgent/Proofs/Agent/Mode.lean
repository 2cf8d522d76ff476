import ArenaAgent.Agent.Mind

/-!
The modes of an agent. Between two ticks the tree of decisions is suspended in one of six ways, and
a mode names each of them. `Mode.step` says what one tick does, without any tree: what is done to
the body, and which mode comes next.

The leaves of the tree are numbered from the left:

    0 rivalNear   1 ahead   2 chase   3 flee   4 settle   5 aimAtRandom   6 walk
    7 aimAtNextStop   8 walk   9 aimAtRandom   10 walk

The leaves 0 and 1 are questions. All others are deeds.
-/
namespace ArenaAgent

/-- The resume pointers of the tree of decisions, by the composite that holds them. -/
structure Pointers where
  decision : Option Nat := none
  engagement : Option Nat := none
  response : Option Nat := none
  pursuit : Option Nat := none
  evasion : Option Nat := none
  /-- The pointer of the wander leg that ends an evasion. -/
  detour : Option Nat := none
  patrolLeg : Option Nat := none
  wanderLeg : Option Nat := none
  deriving DecidableEq

namespace Pointers

variable {α : Type}

/-- In the order of `Tree.pointers`. -/
def toList (p : Pointers) : List (Option Nat) :=
  [p.decision, p.engagement, p.response, p.pursuit, p.evasion, p.detour, p.patrolLeg, p.wanderLeg]

/-- A leg of a walk: the choice of a target and the walk there. -/
def leg (aim : Skill α) (c : Config α) (pointer : Option Nat) : Tree (Skill α) :=
  .node .sequence [.leaf aim, .leaf (.walk c.arrivalRadius)] pointer

def pursuitTree (c : Config α) (pursuit : Option Nat) : Tree (Skill α) :=
  .node .sequence [.leaf .ahead, .leaf (.chase c.arrivalRadius)] pursuit

def evasionTree (c : Config α) (evasion detour : Option Nat) : Tree (Skill α) :=
  .node .sequence [.leaf .flee, .leaf (.settle c.senseRadius), leg .aimAtRandom c detour] evasion

def responseTree (c : Config α) (response pursuit evasion detour : Option Nat) : Tree (Skill α) :=
  .node .reactive [pursuitTree c pursuit, evasionTree c evasion detour] response

def engagementTree (c : Config α) (engagement response pursuit evasion detour : Option Nat) :
    Tree (Skill α) :=
  .node .sequence [.leaf (.rivalNear c.senseRadius), responseTree c response pursuit evasion detour]
    engagement

/-- The tree of decisions with these pointers. -/
def tree (p : Pointers) (c : Config α) : Tree (Skill α) :=
  .node .reactive [engagementTree c p.engagement p.response p.pursuit p.evasion p.detour,
    leg .aimAtNextStop c p.patrolLeg, leg .aimAtRandom c p.wanderLeg] p.decision

theorem pointers_tree (p : Pointers) (c : Config α) : (p.tree c).pointers = p.toList :=
  rfl

theorem tree_unset (c : Config α) : ({} : Pointers).tree c = Mind.decision c :=
  rfl

end Pointers

/-- What an agent is in the middle of between two ticks. -/
inductive Mode where
  /-- Nothing: the latest tick resolved, or there was none. -/
  | clean
  | chase
  | flee
  /-- The wander leg after a flight. -/
  | evadeWander
  | patrol
  | wander
  deriving DecidableEq

/-- The deeds among the leaves visited. -/
def deeds (visits : List Nat) : List Nat :=
  visits.filter (1 < ·)

/-- What one tick did: the answer, what decides the next tick, the body, and the deeds done. -/
structure Move (M α : Type) where
  status : Status
  mind : M
  body : Body α
  deeds : List Nat

namespace Mode

def pointers : Mode → Pointers
  | .clean => {}
  | .chase => { decision := some 0, engagement := some 1, response := some 0, pursuit := some 1 }
  | .flee => { decision := some 0, engagement := some 1, response := some 1, evasion := some 0 }
  | .evadeWander =>
    { decision := some 0, engagement := some 1, response := some 1, evasion := some 2,
      detour := some 1 }
  | .patrol => { decision := some 1, patrolLeg := some 1 }
  | .wander => { decision := some 2, wanderLeg := some 1 }

theorem pursuit_eq_none {m : Mode} (h : m ≠ .chase) : m.pointers.pursuit = none := by
  cases m <;> first | rfl | exact absurd rfl h

theorem patrolLeg_eq_none {m : Mode} (h : m ≠ .patrol) : m.pointers.patrolLeg = none := by
  cases m <;> first | rfl | exact absurd rfl h

theorem wanderLeg_eq_none {m : Mode} (h : m ≠ .wander) : m.pointers.wanderLeg = none := by
  cases m <;> first | rfl | exact absurd rfl h

theorem evasion_of_ne {m : Mode} (h : m ≠ .evadeWander) :
    m.pointers.evasion = none ∨ m.pointers.evasion = some 0 := by
  cases m <;> first | decide | exact absurd rfl h

variable {α : Type}

def tree (m : Mode) (c : Config α) : Tree (Skill α) :=
  m.pointers.tree c

def engagementTree (m : Mode) (c : Config α) : Tree (Skill α) :=
  let p := m.pointers
  Pointers.engagementTree c p.engagement p.response p.pursuit p.evasion p.detour

/-- The part of the first branch behind the question whether the rival is near. -/
def responseTree (m : Mode) (c : Config α) : Tree (Skill α) :=
  let p := m.pointers
  Pointers.responseTree c p.response p.pursuit p.evasion p.detour

/-- An engagement with the rival goes on. -/
def Engaged (m : Mode) : Prop :=
  m = .chase ∨ m = .flee ∨ m = .evadeWander

instance (m : Mode) : Decidable m.Engaged :=
  inferInstanceAs (Decidable (_ ∨ _))

/-- The modes of an agent with this configuration: legs to stops need stops, and legs at random are
for agents without. -/
def Fits (m : Mode) (c : Config α) : Prop :=
  (m = .patrol → c.stops ≠ []) ∧ (m = .wander → c.stops = [])

/-- A walk that is carried on in mode `m` until it ends. -/
def walking (m : Mode) (deeds : List Nat) (walked : Status × Body α) : Move Mode α :=
  ⟨walked.1, if walked.1 = .running then m else .clean, walked.2, deeds⟩

variable [Scalar α]

/-- Starts a leg to a random target. -/
def wanderOff (m : Mode) (c : Config α) (deeds : List Nat) (b : Body α) :
    Except (Breakdown α) (Move Mode α) :=
  match b.aimAtRandom with
  | .ok (_, aimed) => .ok (m.walking deeds (aimed.walkToTarget c.arrivalRadius))
  | .error fault => .error ⟨fault, b⟩

/-- The agent goes its own way: it carries on with its leg, or starts the next one. -/
def stroll (m : Mode) (c : Config α) (deeds : List Nat) (b : Body α) :
    Except (Breakdown α) (Move Mode α) :=
  if m = .patrol then .ok (Mode.patrol.walking (deeds ++ [8]) (b.walkToTarget c.arrivalRadius))
  else if c.stops ≠ [] then
    .ok (Mode.patrol.walking (deeds ++ [7, 8]) (b.aimAtNextStop.2.walkToTarget c.arrivalRadius))
  else if m = .wander then
    .ok (Mode.wander.walking (deeds ++ [7, 10]) (b.walkToTarget c.arrivalRadius))
  else Mode.wander.wanderOff c (deeds ++ [7, 9, 10]) b

/-- One flight, after which the agent may have escaped. -/
def fleeing (b : Body α) : Status × Body α :=
  let r := b.fleeFrom b.rival.position
  (r.1, if r.1 = .success then r.2.record (.escapedRival r.2.position) else r.2)

/-- The agent deals with its rival. An agent that escaped, but finds the rival within its sense
radius all the same, goes its own way. -/
def engage (m : Mode) (c : Config α) (b : Body α) : Except (Breakdown α) (Move Mode α) :=
  if m = .chase ∨ b.rival.score < b.score then
    .ok (Mode.chase.walking [2]
      ({ b with target := b.rival.position }.walkToTarget c.arrivalRadius))
  else if m = .evadeWander then
    .ok (Mode.evadeWander.walking [6] (b.walkToTarget c.arrivalRadius))
  else
    let (status, fled) := fleeing b
    if status = .running then .ok ⟨.running, .flee, fled, [3]⟩
    else if fled.position.Within fled.rival.position c.senseRadius then m.stroll c [3, 4] fled
    else Mode.evadeWander.wanderOff c [3, 4, 5, 6] { fled with visual := .idle }

/-- One tick. A rival within the sense radius starts an engagement, and one that was
started goes on. -/
def step (m : Mode) (c : Config α) (b : Body α) : Except (Breakdown α) (Move Mode α) :=
  if m.Engaged ∨ b.rival.position.Within b.position c.senseRadius then m.engage c b
  else m.stroll c [] b

end Mode

end ArenaAgent
