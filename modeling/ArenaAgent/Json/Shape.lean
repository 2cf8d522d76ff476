import ArenaAgent.Agent.Config
import ArenaAgent.Arena.Drawing
import ArenaAgent.Binary64
import ArenaAgent.Decimal.Layout
import ArenaAgent.Json.Number
import ArenaAgent.Json.Value

/-!
The JSON forms of points, rectangles, visuals and configurations.

A structure is read from an object or from an array in the order of its fields. In an object the
members may stand in any order, members of other names are passed over, and a field given twice is
refused. Points and rectangles need all their fields; the fields of a configuration keep their
shipped values when they are missing, in an array only the last ones can be. What is written is
always an object without blanks.
-/
namespace ArenaAgent

namespace Json

def toFloat? : Json → Option Float
  | .number n => n.toFloat?
  | _ => none

/-- The members of an object by name. Every name has to be text. -/
def named (members : List (Option String × Json)) : Option (List (String × Json)) :=
  members.mapM fun m => m.1.map (·, m.2)

/-- The value of a member, or that there is none; a name that stands twice is refused. -/
def member? (name : String) (members : List (String × Json)) : Option (Option Json) :=
  match members.filter (·.1 = name) with
  | [] => some none
  | [m] => some (some m.2)
  | _ :: _ :: _ => none

/-- A field that has to be there. -/
def required {β : Type} (read : Json → Option β) (field : Option Json) : Option β :=
  field.bind read

/-- A field that may be missing. -/
def optional {β : Type} (read : Json → Option β) (default : β) : Option Json → Option β
  | none => some default
  | some v => read v

/-- A structure of two fields that both have to be there. -/
def pair? {β : Type} (first second : String) (read : Json → Option β) : Json → Option (β × β)
  | .array [a, b] => do return (← read a, ← read b)
  | .object members => do
    let members ← named members
    return (← required read (← member? first members), ← required read (← member? second members))
  | _ => none

def toPoint? (v : Json) : Option (Point Float) :=
  (pair? "x" "y" toFloat? v).map fun (x, y) => ⟨x, y⟩

def toRect? (v : Json) : Option (Rect Float) :=
  (pair? "min" "max" toPoint? v).map fun (min, max) => ⟨min, max⟩

def toStops? : Json → Option (List (Point Float))
  | .array stops => stops.mapM toPoint?
  | _ => none

def visualOfName? (name : String) : Option Visual :=
  if name = Visual.walk.name then some .walk
  else if name = Visual.idle.name then some .idle
  else none

/-- A visual is its name, or an object with that name alone and nothing in it. -/
def toVisual? : Json → Option Visual
  | .string (some name) => visualOfName? name
  | .object [(some name, .null)] => visualOfName? name
  | _ => none

/-- The name of the field after the numeric ones. -/
def stopsName : String := "patrol_route"

/-- A configuration from its fields, each of which may be missing. -/
def configOf (parameter : Parameter → Option (Option Json)) (stops : Option (Option Json)) :
    Option (Config Float) := do
  let value (p : Parameter) : Option Float := do
    optional toFloat? (Config.shipped.value p) (← parameter p)
  return {
    arenaWidth := ← value .arenaWidth
    arenaHeight := ← value .arenaHeight
    runSpeed := ← value .runSpeed
    senseRadius := ← value .senseRadius
    fleeRadius := ← value .fleeRadius
    arrivalRadius := ← value .arrivalRadius
    fleeMargin := ← value .fleeMargin
    wanderMargin := ← value .wanderMargin
    halfExtent := ← value .halfExtent
    stops := ← optional toStops? Config.shippedStops (← stops) }

def toConfig? : Json → Option (Config Float)
  | .array items =>
    if items.length ≤ Parameter.all.length + 1 then
      configOf (fun p => some items[Parameter.all.idxOf p]?) (some items[Parameter.all.length]?)
    else none
  | .object members => do
    let members ← named members
    configOf (fun p => member? p.name members) (member? stopsName members)
  | _ => none

/-- The text of a number. There is none for what is not finite. -/
def numberText (x : Float) : String :=
  if x.isFinite then NumberStyle.json.render x else "null"

def objectText (fields : List (String × String)) : String :=
  "\x7b" ++ ",".intercalate (fields.map fun f => "\"" ++ f.1 ++ "\":" ++ f.2) ++ "\x7d"

def pointText (p : Point Float) : String :=
  objectText [("x", numberText p.x), ("y", numberText p.y)]

def rectText (r : Rect Float) : String :=
  objectText [("min", pointText r.min), ("max", pointText r.max)]

def visualText (v : Visual) : String :=
  "\"" ++ v.name ++ "\""

def stopsText (stops : List (Point Float)) : String :=
  "[" ++ ",".intercalate (stops.map pointText) ++ "]"

def configText (c : Config Float) : String :=
  objectText
    ((Parameter.all.map fun p => (p.name, numberText (c.value p))) ++
      [(stopsName, stopsText c.stops)])

end Json

end ArenaAgent
