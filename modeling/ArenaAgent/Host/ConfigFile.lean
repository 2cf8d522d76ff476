import ArenaAgent.Agent.Refusal
import ArenaAgent.Json.Shape
import ArenaAgent.Text.Utf8

/-!
The agent's configuration from a file: JSON text in UTF-8 that reads as a configuration without
defect.
-/
namespace ArenaAgent

/-- Why there is no configuration. -/
inductive LoadError where
  /-- The file could not be read, or it is not text. -/
  | unreadable (path : String)
  /-- The text is not a configuration. -/
  | malformed (path : String)
  | refused (refusal : Refusal Float)

def LoadError.message (number : Float → String) : LoadError → String
  | .unreadable path => "reading agent config " ++ path
  | .malformed path => "parsing agent config " ++ path
  | .refused e => e.message number

namespace Config

/-- The configuration that a text spells. -/
def ofText? (text : String) : Option (Config Float) :=
  (Json.parse text).bind Json.toConfig?

/-- The configuration in a file of these contents, if it could be read. -/
def ofFile (path : String) (contents : Option (List UInt8)) : Except LoadError (Config Float) :=
  match contents.bind Utf8.text? with
  | none => .error (.unreadable path)
  | some text =>
    match ofText? text with
    | none => .error (.malformed path)
    | some c =>
      match c.check with
      | .error e => .error (.refused e)
      | .ok () => .ok c

/-- The shipped configuration, unless a file is named. -/
def load (path : Option String) (contents : Option (List UInt8)) :
    Except LoadError (Config Float) :=
  match path with
  | none => .ok shipped
  | some path => ofFile path contents

end Config

end ArenaAgent
