import ArenaAgent.Agent.Skill

/-!
The decisions of an agent.

    decision (reactive)
     ├─ engagement
     │   ├─ is the rival within the sense radius?
     │   └─ response (reactive)
     │       ├─ pursuit: does the agent outscore the rival? → chase it
     │       └─ evasion: flee → settle → wander leg
     ├─ patrol leg: next stop → walk there
     └─ wander leg: random target → walk there

An engagement comes before everything else; since the selectors are reactive, a rival that comes
into range interrupts a leg at the next tick. A patrol leg fails only without stops, so the last
branch is for agents that have none.
-/
namespace ArenaAgent

abbrev Mind (α : Type) := Root (Skill α)

namespace Mind

variable {α : Type}

def wanderLeg (c : Config α) : Tree (Skill α) :=
  .fresh .sequence [.leaf .aimAtRandom, .leaf (.walk c.arrivalRadius)]

def patrolLeg (c : Config α) : Tree (Skill α) :=
  .fresh .sequence [.leaf .aimAtNextStop, .leaf (.walk c.arrivalRadius)]

def evasion (c : Config α) : Tree (Skill α) :=
  .fresh .sequence [.leaf .flee, .leaf (.settle c.senseRadius), wanderLeg c]

def pursuit (c : Config α) : Tree (Skill α) :=
  .fresh .sequence [.leaf .ahead, .leaf (.chase c.arrivalRadius)]

def response (c : Config α) : Tree (Skill α) :=
  .fresh .reactive [pursuit c, evasion c]

def engagement (c : Config α) : Tree (Skill α) :=
  .fresh .sequence [.leaf (.rivalNear c.senseRadius), response c]

def decision (c : Config α) : Tree (Skill α) :=
  .fresh .reactive [engagement c, patrolLeg c, wanderLeg c]

/-- The mind of an agent that was not ticked yet. -/
def ofConfig (c : Config α) : Mind α :=
  .new (decision c)

theorem wellFormed_decision (c : Config α) : (decision c).WellFormed := by
  simp [decision, engagement, response, pursuit, evasion, patrolLeg, wanderLeg, Tree.fresh,
    Tree.WellFormed, Tree.ForestWellFormed]

end Mind

end ArenaAgent
