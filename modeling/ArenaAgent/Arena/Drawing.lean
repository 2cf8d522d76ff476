import ArenaAgent.Arena.Rect

/-!
What an agent asks to be drawn. Sheets, fonts and the drawing itself belong to whoever
shows the picture.
-/
namespace ArenaAgent

/-- Which strip of the sprite sheet is played. -/
inductive Visual where
  | walk
  | idle
  deriving DecidableEq

def Visual.name : Visual → String
  | .walk => "Walk"
  | .idle => "Idle"

/-- The strip of an agent that did nothing yet. -/
def Visual.initial : Visual := .idle

inductive Facing where
  | left
  | right
  deriving DecidableEq

/-- To the left exactly if the heading points there. -/
def Facing.ofHeading {α : Type} [Scalar α] (heading : α) : Facing :=
  if Scalar.cos heading < 0.0 then .left else .right

structure Sprite (α : Type) where
  visual : Visual
  frame : Nat
  center : Point α
  /-- The side of the square that is drawn. -/
  size : α
  facing : Facing

inductive Drawing (α : Type) where
  /-- A sprite, flipped when it faces left. -/
  | sprite (sprite : Sprite α)
  | label (anchor : Point α) (text : String)
  | outline (box : Rect α)

end ArenaAgent
