import ArenaAgent.Log.Record

/-!
What happens to an agent, as far as the log tells it.
-/
namespace ArenaAgent

inductive Event (α : Type) where
  | spawned (position : Point α) (seed : Option UInt64)
  | patrolLeg (index : Nat) (goal : Point α)
  | randomTarget (goal : Point α)
  | escapedRival (position : Point α)
  /-- The tick with this number, counted from one, is over. -/
  | ticked (tick : Nat) (status : Status) (position : Point α)
  | visualChanged (before after : Visual)
  | scored (score : UInt32)
  | drew (drawing : Drawing α)

namespace Event

variable {α : Type}

def ofDrawing : Drawing α → Record α
  | .sprite s => ⟨.trace, "sprite",
      [("sheet", .text s.visual.name), ("frame", .natural s.frame), ("x", .number s.center.x),
        ("y", .number s.center.y), ("mirrored", .flag (s.facing = .left))]⟩
  | .label anchor text =>
    ⟨.trace, "label", [("x", .number anchor.x), ("y", .number anchor.y), ("text", .text text)]⟩
  | .outline box => ⟨.trace, "bounds", [("bounds", .rect box)]⟩

def record : Event α → Record α
  | .spawned position seed =>
    ⟨.debug, "agent spawned",
      [("position", .point position), ("seed", .maybe (seed.map fun s => .natural s.toNat))]⟩
  | .patrolLeg index goal =>
    ⟨.debug, "patrol leg", [("index", .natural index), ("goal", .point goal)]⟩
  | .randomTarget goal => ⟨.trace, "random target", [("goal", .point goal)]⟩
  | .escapedRival position => ⟨.debug, "escaped rival", [("position", .point position)]⟩
  | .ticked tick status position =>
    ⟨.trace, "agent ticked",
      [("tick", .natural tick), ("status", .status status), ("position", .point position)]⟩
  | .visualChanged before after =>
    ⟨.debug, "visual state changed", [("from", .text before.name), ("to", .text after.name)]⟩
  | .scored score => ⟨.debug, "scored", [("score", .natural score.toNat)]⟩
  | .drew drawing => ofDrawing drawing

end Event

end ArenaAgent
