import ArenaAgent.Agent.Config.Defect

/-!
Why a host is turned away: it handed an agent something unusable, which is refused
before anything happens.
-/
namespace ArenaAgent

/-- An argument that cannot be used. -/
inductive Misuse where
  | incompleteTarget
  | spawnOutsideArena
  deriving DecidableEq

def Misuse.message : Misuse → String
  | .incompleteTarget => "target location needs both coordinates"
  | .spawnOutsideArena => "spawn point must lie inside the arena"

/-- Why a host was turned away. -/
inductive Refusal (α : Type) where
  | misuse (misuse : Misuse)
  | defect (defect : Defect α)

namespace Refusal

variable {α : Type}

def message (number : α → String) : Refusal α → String
  | .misuse m => "invalid argument: " ++ m.message
  | .defect d => "invalid agent configuration: " ++ d.message number

/-- A fixed name for the kind of refusal. -/
def code : Refusal α → String
  | .misuse _ => "AGENT_INVALID_ARGUMENT"
  | .defect _ => "AGENT_INVALID_CONFIG"

end Refusal

namespace Config

variable {α : Type} [Scalar α]

/-- Refuses a configuration that has a defect. -/
def check (c : Config α) : Except (Refusal α) Unit :=
  match c.defect? with
  | some d => .error (.defect d)
  | none => .ok ()

theorem check_eq_ok_iff (c : Config α) : c.check = .ok () ↔ c.defect? = none := by
  simp only [check]
  split <;> simp_all

end Config

end ArenaAgent
