import ArenaAgent.Json.Token

/-!
JSON values. `Json.parse` reads a whole text: the tokens are put together one after the other, on a
stack of the arrays and objects that are still open, so nesting may be of any depth.
-/
namespace ArenaAgent

/-- A JSON value. Members keep their order and may repeat a name. -/
inductive Json where
  | null
  | bool (b : Bool)
  | number (n : Json.Numeral)
  | string (text : Option String)
  | array (items : List Json)
  | object (members : List (Option String × Json))

namespace Json

/-- A container that is still open; what it holds so far is kept in reverse. -/
inductive Container where
  | array (items : List Json)
  | object (members : List (Option String × Json))
  /-- An object whose next member has its name and waits for its value. -/
  | member (name : Option String) (members : List (Option String × Json))

inductive Phase where
  | value
  /-- A value, or the end of the array. -/
  | firstItem
  /-- A name, or the end of the object. -/
  | firstName
  | name
  | colon
  /-- A comma, or the end of the container. -/
  | separator
  /-- Nothing: the text holds this value. -/
  | complete (v : Json)

structure Assembly where
  stack : List Container
  phase : Phase

namespace Assembly

def start : Assembly :=
  ⟨[], .value⟩

/-- Puts a value where it belongs: into the innermost open container. -/
def put (v : Json) : List Container → Option Assembly
  | [] => some ⟨[], .complete v⟩
  | .array items :: stack => some ⟨.array (v :: items) :: stack, .separator⟩
  | .member name members :: stack => some ⟨.object ((name, v) :: members) :: stack, .separator⟩
  | .object _ :: _ => none

def begin (stack : List Container) : Token → Option Assembly
  | .openArray => some ⟨.array [] :: stack, .firstItem⟩
  | .openObject => some ⟨.object [] :: stack, .firstName⟩
  | .null => put .null stack
  | .bool b => put (.bool b) stack
  | .number n => put (.number n) stack
  | .string text => put (.string text) stack
  | _ => none

def close : List Container → Token → Option Assembly
  | .array items :: stack, .closeArray => put (.array items.reverse) stack
  | .object members :: stack, .closeObject => put (.object members.reverse) stack
  | _, _ => none

def nameMember : List Container → Token → Option Assembly
  | .object members :: stack, .string text => some ⟨.member text members :: stack, .colon⟩
  | _, _ => none

def separate : List Container → Token → Option Assembly
  | .array items :: stack, .comma => some ⟨.array items :: stack, .value⟩
  | .object members :: stack, .comma => some ⟨.object members :: stack, .name⟩
  | stack, t => close stack t

def step (a : Assembly) (t : Token) : Option Assembly :=
  match a.phase, t with
  | .value, t => begin a.stack t
  | .firstItem, .closeArray => close a.stack t
  | .firstItem, t => begin a.stack t
  | .firstName, .closeObject => close a.stack t
  | .firstName, t => nameMember a.stack t
  | .name, t => nameMember a.stack t
  | .colon, .colon => some ⟨a.stack, .value⟩
  | .colon, _ => none
  | .separator, t => separate a.stack t
  | .complete _, _ => none

def result (a : Assembly) : Option Json :=
  match a.phase with
  | .complete v => some v
  | _ => none

end Assembly

def ofTokens (ts : List Token) : Option Json :=
  (ts.foldlM Assembly.step Assembly.start).bind Assembly.result

def parse (text : String) : Option Json :=
  (lex text.toList).bind ofTokens

end Json

end ArenaAgent
