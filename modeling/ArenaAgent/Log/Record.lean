import ArenaAgent.Arena.Drawing
import ArenaAgent.Tree.Status

/-!
Log records: a level, a message and named values. A record is data; `Record.render` writes it as one
line, with numbers in the style that the reader of the line wants.
-/
namespace ArenaAgent

inductive Level where
  | trace
  | debug
  | info
  deriving DecidableEq

namespace Level

def name : Level → String
  | .trace => "TRACE"
  | .debug => "DEBUG"
  | .info => "INFO"

/-- Importance, the least first. -/
def rank : Level → Nat
  | .trace => 0
  | .debug => 1
  | .info => 2

end Level

inductive LogValue (α : Type) where
  | number (x : α)
  | natural (n : Nat)
  | flag (b : Bool)
  | text (s : String)
  /-- A name that stands for itself. -/
  | symbol (s : String)
  | maybe (v : Option (LogValue α))
  /-- Named parts of a larger whole. -/
  | parts (name : String) (fields : List (String × LogValue α))

namespace LogValue

variable {α : Type}

def point (p : Point α) : LogValue α :=
  .parts "Point" [("x", .number p.x), ("y", .number p.y)]

def rect (r : Rect α) : LogValue α :=
  .parts "Rect" [("min", point r.min), ("max", point r.max)]

def status : Status → LogValue α
  | .success => .symbol "Success"
  | .failure => .symbol "Failure"
  | .running => .symbol "Running"

/-- A character inside quotes. Of the characters that do not show, the control characters of
ASCII are escaped. -/
def quotedChar (c : Char) : String :=
  match c with
  | '"' => "\\\""
  | '\\' => "\\\\"
  | '\n' => "\\n"
  | '\r' => "\\r"
  | '\t' => "\\t"
  | '\x00' => "\\0"
  | c =>
    if c < ' ' ∨ c = '\x7f' then "\\u\x7b" ++ String.ofList (Nat.toDigits 16 c.toNat) ++ "\x7d"
    else c.toString

def quoted (s : String) : String :=
  "\"" ++ String.join (s.toList.map quotedChar) ++ "\""

mutual
def render (number : α → String) : LogValue α → String
  | .number x => number x
  | .natural n => toString n
  | .flag b => if b then "true" else "false"
  | .text s => quoted s
  | .symbol s => s
  | .maybe none => "None"
  | .maybe (some v) => "Some(" ++ v.render number ++ ")"
  | .parts name fields => name ++ " \x7b " ++ renderFields number fields ++ " \x7d"

def renderFields (number : α → String) : List (String × LogValue α) → String
  | [] => ""
  | [(name, v)] => name ++ ": " ++ v.render number
  | (name, v) :: fields => name ++ ": " ++ v.render number ++ ", " ++ renderFields number fields
end

end LogValue

structure Record (α : Type) where
  level : Level
  message : String
  fields : List (String × LogValue α)

namespace Record

variable {α : Type}

def render (number : α → String) (r : Record α) : String :=
  r.level.name ++ " " ++ r.message
    ++ String.join (r.fields.map fun (name, v) => " " ++ name ++ "=" ++ v.render number)

end Record

end ArenaAgent
